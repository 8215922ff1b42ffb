import ITG.Webrtc.Hub.Lock

/-!
# The life of a client

What a hub is for, as far as one client is concerned, is to take it through a fixed sequence of
stages: it is not yet known, then queued in `Register`, then taken from it by `Run`, then a
member of `Clients`, then removed, and finally its `Send` channel is closed.  `lifecycle` is that
abstract machine.  It has no channels, no locks and no program points.

The concrete hub does not store a stage.  It stores five facts about a client that the stage
determines, its `Bits`; most of the thirty-two combinations must never occur.  `Inv` says that
each client's bits are those of some stage and that every goroutine that is about to act on a
client finds it in the stage it expects.  It is proved here to be an invariant, and
`hub_refines_lifecycle` states the outcome: the hub is a refinement of the lifecycle.
-/

universe u

namespace ITG.Webrtc

open ITG.Lib

/-! ## The abstract machine -/

/-- The stages of a client, in order. -/
inductive Life where
  /-- Not yet sent on `Register`. -/
  | fresh
  /-- In the buffer of `Register`. -/
  | queued
  /-- Received by `Run`, which has not inserted it yet. -/
  | taken
  /-- In `Clients`. -/
  | member
  /-- Deleted from `Clients`, with `Send` still open. -/
  | removed
  /-- Its `Send` channel is closed. -/
  | closed
deriving DecidableEq, Repr

instance : LinearOrder Life :=
  .lift' Life.ctorIdx fun p q h ↦ by cases p <;> cases q <;> first | rfl | cases h

/-- The stages that may follow a stage.  The `done` branch of `Run` closes members without
removing them first. -/
def Life.Next : Life → Life → Prop
  | .fresh, l => l = .queued
  | .queued, l => l = .taken
  | .taken, l => l = .member
  | .member, l => l = .removed ∨ l = .closed
  | .removed, l => l = .closed
  | .closed, _ => False

theorem Life.Next.lt {l l' : Life} (h : l.Next l') : l < l' := by
  cases l <;> simp only [Next] at h
  case member => rcases h with rfl | rfl <;> decide
  all_goals subst h; decide

/-- The abstract machine: clients move through their stages independently. -/
def lifecycle (C : Type u) [DecidableEq C] : Machine (C → Life) (C × Life) Empty where
  init ℓ := ℓ = fun _ ↦ .fresh
  guard ℓ a := (ℓ a.1).Next a.2
  effect ℓ a _ := Function.update ℓ a.1 a.2
  emit _ _ := []

/-! ## The stage of a client in the hub -/

/-- What the hub stores about a client. -/
@[ext]
structure Bits where
  /-- The handler has not sent it on `Register`. -/
  fresh : Bool
  /-- It is in the buffer of `Register`. -/
  queued : Bool
  /-- `Run` is about to insert it. -/
  taken : Bool
  /-- It is in `Clients`. -/
  member : Bool
  /-- Its `Send` channel is closed. -/
  closed : Bool
deriving DecidableEq, Repr

/-- The bits of a stage: at most one is set. -/
def Life.bits (l : Life) : Bits where
  fresh := decide (l = .fresh)
  queued := decide (l = .queued)
  taken := decide (l = .taken)
  member := decide (l = .member)
  closed := decide (l = .closed)

/-- The stage that bits show. -/
def Bits.life (b : Bits) : Life :=
  if b.fresh then .fresh
  else if b.queued then .queued
  else if b.taken then .taken
  else if b.member then .member
  else if b.closed then .closed
  else .removed

@[simp] theorem Life.life_bits (l : Life) : l.bits.life = l := by cases l <;> rfl

variable {C : Type u}

/-- The client that `Run` is about to insert. -/
def RunAt.taking : RunAt C → Option C
  | .wantLock (.register c) | .waitLock (.register c) | .locked (.register c) => some c
  | _ => none

/-- The stages in which `Run` expects to find clients. -/
def RunAt.Expects (ℓ : C → Life) : RunAt C → Prop
  | .unregRLock c | .unregCheck c | .unregRUnlock c false => ℓ c ≠ .fresh
  | .unregRUnlock c true | .wantLock (.unregister c) | .waitLock (.unregister c)
  | .locked (.unregister c) | .doneClose c => ℓ c = .member
  | .unlock (.unregister c) | .connClose c | .sendClose c => ℓ c = .removed
  | .castNext _ rest => ∀ c ∈ rest, ℓ c = .member
  | .castSend _ c rest => ℓ c = .member ∧ ∀ d ∈ rest, ℓ d = .member
  | _ => True

/-- What `Run` expects survives any move of a fresh client. -/
theorem RunAt.Expects.congr {p : RunAt C} {ℓ ℓ' : C → Life} (h : p.Expects ℓ)
    (hl : ∀ c, ℓ c ≠ .fresh → ℓ' c = ℓ c) : p.Expects ℓ' := by
  have hm : ∀ c, ℓ c = .member → ℓ' c = .member := fun c hc ↦ by rw [hl c (by simp [hc]), hc]
  have hr : ∀ c, ℓ c = .removed → ℓ' c = .removed := fun c hc ↦ by rw [hl c (by simp [hc]), hc]
  have hf : ∀ c, ℓ c ≠ .fresh → ℓ' c ≠ .fresh := fun c hc ↦ by rwa [hl c hc]
  match p, h with
  | .unregRLock c, h | .unregCheck c, h | .unregRUnlock c false, h => exact hf c h
  | .unregRUnlock c true, h | .wantLock (.unregister c), h | .waitLock (.unregister c), h
  | .locked (.unregister c), h | .doneClose c, h => exact hm c h
  | .unlock (.unregister c), h | .connClose c, h | .sendClose c, h => exact hr c h
  | .castNext _ _, h => exact fun c hc ↦ hm c (h c hc)
  | .castSend _ _ _, h => exact ⟨hm _ h.1, fun d hd ↦ hm d (h.2 d hd)⟩
  | .select, _ | .wantLock (.register _), _ | .wantLock .done, _ | .waitLock (.register _), _
  | .waitLock .done, _ | .locked (.register _), _ | .locked .done, _ | .unlock (.register _), _
  | .unlock .done, _ | .infoRLock, _ | .infoLen, _ | .infoRUnlock _, _ | .goSendInfo _, _
  | .castRLock _, _ | .castRUnlock, _ | .returned, _ => trivial

/-- The move an action makes in the lifecycle. -/
def Action.move? : Action C → Option (C × Life)
  | .register c => some (c, .queued)
  | .recvRegister c => some (c, .taken)
  | .insert c => some (c, .member)
  | .delete c => some (c, .removed)
  | .sendClose c | .doneSend c => some (c, .closed)
  | _ => none

namespace Hub

variable [DecidableEq C]

/-- The bits of a client. -/
def bits (s : Hub C) (c : C) : Bits where
  fresh := decide (s.handler c ≤ .register)
  queued := decide (c ∈ s.Register.buf)
  taken := decide (s.run.taking = some c)
  member := decide (c ∈ s.Clients)
  closed := s.sendClosed c

/-- The stage of a client. -/
def life (s : Hub C) (c : C) : Life := (s.bits c).life

/-- The invariant of the hub. -/
structure Inv (s : Hub C) : Prop where
  control : ControlInv s
  lock : LockInv s
  /-- A client's bits are those of its stage. -/
  life : ∀ c, s.bits c = (s.life c).bits
  /-- `Run` acts on clients in the stage it expects. -/
  run : s.run.Expects s.life
  /-- A sender blocked in a send has a member as its client. -/
  sending : ∀ g m, s.sender g = .send m → s.life g.client = .member
  /-- Only clients that were sent on `Register` are sent on `Unregister`. -/
  unregister : ∀ c ∈ s.Unregister.buf, s.life c ≠ .fresh
  /-- Nothing has panicked. -/
  panicked : s.panicked = false

theorem Inv.new : Inv (new : Hub C) where
  control := .new
  lock := .new
  life c := by simp +decide [bits, Hub.life, Bits.life, Hub.new, RunAt.taking, Life.bits]
  run := trivial
  sending := by simp [Hub.new]
  unregister := by simp [Hub.new]
  panicked := rfl

variable {s : Hub C} {a : Action C}

/-! ## Reading a stage off the hub -/

theorem life_of_bits {c : C} {l : Life} (h : s.bits c = l.bits) : s.life c = l := by
  rw [Hub.life, h, Life.life_bits]

theorem Inv.life_eq_fresh (h : Inv s) {c : C} : s.life c = .fresh ↔ s.handler c ≤ .register :=
  decide_eq_decide.1 (congrArg Bits.fresh (h.life c)).symm

theorem Inv.life_eq_queued (h : Inv s) {c : C} : s.life c = .queued ↔ c ∈ s.Register.buf :=
  decide_eq_decide.1 (congrArg Bits.queued (h.life c)).symm

theorem Inv.life_eq_taken (h : Inv s) {c : C} : s.life c = .taken ↔ s.run.taking = some c :=
  decide_eq_decide.1 (congrArg Bits.taken (h.life c)).symm

theorem Inv.life_eq_member (h : Inv s) {c : C} : s.life c = .member ↔ c ∈ s.Clients :=
  decide_eq_decide.1 (congrArg Bits.member (h.life c)).symm

theorem Inv.life_eq_closed (h : Inv s) {c : C} : s.life c = .closed ↔ s.sendClosed c = true := by
  rw [show s.sendClosed c = decide (s.life c = .closed) from congrArg Bits.closed (h.life c),
    decide_eq_true_iff]

/-- A client that is not closed has an open `Send` channel. -/
theorem Inv.sendClosed_eq_false (h : Inv s) {c : C} (hc : s.life c ≠ .closed) :
    s.sendClosed c = false :=
  Bool.eq_false_iff.2 fun ho ↦ hc (h.life_eq_closed.2 ho)

/-- `Run` finds clients in the stages that its program point expects. -/
theorem Inv.expects (h : Inv s) {p : RunAt C} (hp : s.run = p) : p.Expects s.life := hp ▸ h.run

/-! ## One step in the lifecycle -/

/-- The stage of a client is moved by the actions that `Action.move?` names, and those find the
client in the stage before. -/
theorem Inv.next_of_move (h : Inv s) (g : s.guard a) {c : C} {l : Life}
    (hm : a.move? = some (c, l)) : (s.life c).Next l := by
  cases a
  case register d =>
      cases hm
      rw [h.life_eq_fresh.2 (le_of_eq g.1)]
      exact rfl
  case recvRegister d =>
      cases hm
      rw [h.life_eq_queued.2 (List.mem_of_mem_head? g.2)]
      exact rfl
  case insert d =>
      cases hm
      rw [h.life_eq_taken.2 (congrArg RunAt.taking g)]
      exact rfl
  case delete d =>
      cases hm
      rw [show s.life c = .member from h.expects g]
      exact .inl rfl
  case sendClose d =>
      cases hm
      rw [show s.life c = .removed from h.expects g]
      exact rfl
  case doneSend d =>
      cases hm
      rw [show s.life c = .member from h.expects g]
      exact .inr rfl
  all_goals cases hm

/-- Only `register` sends a client on `Register`. -/
theorem queued_frame (g : s.guard a) {c : C} (hm : ∀ l, a.move? ≠ some (c, l)) :
    c ∈ (s.effect a g).Register.buf ↔ c ∈ s.Register.buf := by
  cases a
  case register d =>
      have e : c ≠ d := fun e ↦ hm _ (by rw [e]; rfl)
      simp [effect, e]
  case recvRegister d =>
      have e : c ≠ d := fun e ↦ hm _ (by rw [e]; rfl)
      change c ∈ s.Register.pop.buf ↔ c ∈ s.Register.buf
      simp only [Chan.buf_eq_cons g.2, List.mem_cons, e, false_or]
  all_goals simp [effect]

/-- `Run` is about to insert the clients it has received, until it inserts them. -/
theorem taken_frame (g : s.guard a) {c : C} (hm : ∀ l, a.move? ≠ some (c, l)) :
    (s.effect a g).run.taking = some c ↔ s.run.taking = some c := by
  cases a
  case recvRegister d =>
      have e : d ≠ c := fun e ↦ hm _ (by rw [e]; rfl)
      simp [effect, g.1, RunAt.taking, e]
  case insert d =>
      have e : d ≠ c := fun e ↦ hm _ (by rw [e]; rfl)
      have hs : s.run = .locked (.register d) := g
      simp [effect, hs, RunAt.taking, e]
  case unlock w =>
      have hs : s.run = .unlock w := g
      cases w <;> simp [effect, hs, RunAt.taking, afterUnlock]
  case announce w | lock w => cases w <;> simp [effect, g.1, RunAt.taking]
  case unregRUnlock d ok =>
      have hs : s.run = .unregRUnlock d ok := g
      cases ok <;> simp [effect, hs, RunAt.taking]
  all_goals
    simp only [guard] at g
    simp [effect, g, RunAt.taking]

/-- `Run` alone changes `Clients`. -/
theorem member_frame (g : s.guard a) {c : C} (hm : ∀ l, a.move? ≠ some (c, l)) :
    c ∈ (s.effect a g).Clients ↔ c ∈ s.Clients := by
  cases a
  case insert d | delete d | doneSend d =>
      have e : c ≠ d := fun e ↦ hm _ (by rw [e]; rfl)
      simp [effect, e]
  all_goals simp [effect]

/-- `Run` alone closes `Send` channels. -/
theorem closed_frame (g : s.guard a) {c : C} (hm : ∀ l, a.move? ≠ some (c, l)) :
    (s.effect a g).sendClosed c = s.sendClosed c := by
  cases a
  case sendClose d | doneSend d =>
      have e : c ≠ d := fun e ↦ hm _ (by rw [e]; rfl)
      simp [effect, e]
  all_goals simp [effect]

/-- The bits of a client that is not moved stay as they are. -/
theorem bits_frame (g : s.guard a) {c : C} (hm : ∀ l, a.move? ≠ some (c, l)) :
    (s.effect a g).bits c = s.bits c := by
  have hf : (s.effect a g).handler c ≤ .register ↔ s.handler c ≤ .register := by
    apply handler_le_iff g (by decide)
    intro hh
    cases a
    case register d => cases hh; exact hm _ rfl
    all_goals cases hh
  exact Bits.ext (decide_eq_decide.2 hf) (decide_eq_decide.2 (queued_frame g hm))
    (decide_eq_decide.2 (taken_frame g hm)) (decide_eq_decide.2 (member_frame g hm))
    (closed_frame g hm)

/-- A moved client shows the bits of its new stage. -/
theorem Inv.bits_of_move (h : Inv s) (g : s.guard a) {c : C} {l : Life}
    (hm : a.move? = some (c, l)) : (s.effect a g).bits c = l.bits := by
  have hf := h.life_eq_fresh (c := c)
  have hq := h.life_eq_queued (c := c)
  have ht := h.life_eq_taken (c := c)
  have hmem := h.life_eq_member (c := c)
  have hcl := h.life_eq_closed (c := c)
  cases a
  case register d =>
      cases hm
      simp only [h.life_eq_fresh.2 (le_of_eq g.1), reduceCtorEq, false_iff] at hq ht hmem hcl
      ext <;> simp +decide [bits, Life.bits, effect, ht, hmem, hcl]
  case recvRegister d =>
      cases hm
      simp only [h.life_eq_queued.2 (List.mem_of_mem_head? g.2), reduceCtorEq, false_iff]
        at hf hmem hcl
      have hp : c ∉ s.Register.pop.buf := by rw [Chan.buf_pop_one]; exact List.not_mem_nil
      ext <;> simp only [bits, Life.bits, effect, hf, hmem, hcl, hp, RunAt.taking] <;> simp
  case insert d =>
      cases hm
      have hl : s.life c = .taken := h.life_eq_taken.2 (congrArg RunAt.taking g)
      simp only [hl, reduceCtorEq, false_iff] at hf hq hcl
      ext <;> simp [bits, Life.bits, effect, hf, hq, hcl, RunAt.taking]
  case delete d =>
      cases hm
      have hl : s.life c = .member := h.expects g
      simp only [hl, reduceCtorEq, false_iff] at hf hq hcl
      ext <;> simp [bits, Life.bits, effect, hf, hq, hcl, RunAt.taking]
  case sendClose d =>
      cases hm
      have hl : s.life c = .removed := h.expects g
      simp only [hl, reduceCtorEq, false_iff] at hf hq hmem
      ext <;> simp [bits, Life.bits, effect, hf, hq, hmem, RunAt.taking]
  case doneSend d =>
      cases hm
      have hl : s.life c = .member := h.expects g
      simp only [hl, reduceCtorEq, false_iff] at hf hq
      ext <;> simp [bits, Life.bits, effect, hf, hq, RunAt.taking]
  all_goals cases hm

/-- One step moves a client as `Action.move?` says, and leaves the others where they are. -/
theorem Inv.life_move (h : Inv s) (g : s.guard a) {c : C} {l : Life}
    (hm : a.move? = some (c, l)) : (s.effect a g).life c = l :=
  life_of_bits (h.bits_of_move g hm)

theorem life_frame (g : s.guard a) {c : C} (hm : ∀ l, a.move? ≠ some (c, l)) :
    (s.effect a g).life c = s.life c := congrArg Bits.life (bits_frame g hm)

theorem life_eq (g : s.guard a) (hm : a.move? = none) : (s.effect a g).life = s.life :=
  funext fun c ↦ life_frame g fun l hl ↦ by rw [hm] at hl; cases hl

/-- What a step can do to a client's stage. -/
theorem Inv.life_step (h : Inv s) (g : s.guard a) (c : C) :
    (s.effect a g).life c = s.life c ∨
    ∃ l, a.move? = some (c, l) ∧ (s.effect a g).life c = l ∧ (s.life c).Next l := by
  by_cases hm : ∃ l, a.move? = some (c, l)
  · obtain ⟨l, hl⟩ := hm
    exact .inr ⟨l, hl, h.life_move g hl, h.next_of_move g hl⟩
  · exact .inl (life_frame g (not_exists.1 hm))

/-- Clients only move forward through their stages. -/
theorem Inv.life_mono (h : Inv s) (g : s.guard a) (c : C) : s.life c ≤ (s.effect a g).life c := by
  rcases h.life_step g c with he | ⟨l, -, rfl, hn⟩
  · exact he.ge
  · exact hn.lt.le

/-! ## Preservation -/

theorem Inv.run_step (h : Inv s) (g : s.guard a) :
    (s.effect a g).run.Expects (s.effect a g).life := by
  cases a
  case register c =>
      refine RunAt.Expects.congr h.run fun d hd ↦ life_frame g fun l hl ↦ hd ?_
      cases hl
      exact h.life_eq_fresh.2 (le_of_eq g.1)
  case recvRegister c | insert c | sendClose c | doneSend c => trivial
  case delete c => exact h.life_move g rfl
  case recvUnregister c =>
      rw [life_eq g rfl]
      exact h.unregister c (List.mem_of_mem_head? g.2)
  case announce w | lock w =>
      rw [life_eq g rfl]
      have hr := h.expects g.1
      cases w <;> exact hr
  case unlock w =>
      rw [life_eq g rfl]
      have hr := h.expects g
      cases w
      case unregister c => exact hr
      all_goals trivial
  case unregRLock c =>
      rw [life_eq g rfl]
      have hr : s.life c ≠ .fresh := h.expects g.1
      exact hr
  case unregCheck c =>
      rw [life_eq g rfl]
      have hr : s.life c ≠ .fresh := h.expects g
      by_cases hc : c ∈ s.Clients
      · simpa [effect, hc, RunAt.Expects] using h.life_eq_member.2 hc
      · simpa [effect, hc, RunAt.Expects] using hr
  case unregRUnlock c ok =>
      rw [life_eq g rfl]
      have hr := h.expects g
      cases ok
      case true => exact hr
      case false => trivial
  case connClose c =>
      rw [life_eq g rfl]
      have hr : s.life c = .removed := h.expects g
      exact hr
  case doneConn c =>
      rw [life_eq g rfl]
      exact h.life_eq_member.2 g.2
  case castRLock m =>
      rw [life_eq g rfl]
      exact fun c hc ↦ h.life_eq_member.2 hc
  case castPick m c rest =>
      rw [life_eq g rfl]
      have hr : ∀ d ∈ rest, s.life d = .member := h.expects g.1
      exact ⟨hr c g.2, fun d hd ↦ hr d (Finset.mem_of_mem_erase hd)⟩
  case castSend m c rest =>
      rw [life_eq g rfl]
      exact (h.expects g.1).2
  case recvBroadcast | recvDone | doneEnd | infoRLock | infoLen | infoRUnlock | goSendInfo
      | castEnd | castRUnlock => trivial
  case send k m =>
      rw [life_eq g rfl]
      simpa [effect] using h.run
  all_goals
    rw [life_eq g rfl]
    exact h.run

/-- `Run` only moves a member while it holds the write lock. -/
theorem Inv.holding_of_move (h : Inv s) (g : s.guard a) {c : C} {l : Life}
    (hl : s.life c = .member) (hm : a.move? = some (c, l)) : s.run.lockUse = .holding := by
  have hn := h.next_of_move g hm
  rw [hl] at hn
  cases a
  case delete d | doneSend d => exact congrArg RunAt.lockUse g
  case sendClose d =>
      cases hm
      have hr : s.life c = .removed := h.expects g
      rw [hl] at hr
      cases hr
  case register d | recvRegister d | insert d =>
      cases hm
      rcases hn with hn | hn <;> cases hn
  all_goals cases hm

/-- A client that a sender is inside its snippet for does not stop being a member. -/
theorem Inv.member_of_reading (h : Inv s) (g : s.guard a) {k : Sender C}
    (hk : (s.sender k).reading = true) (hl : s.life k.client = .member) :
    (s.effect a g).life k.client = .member := by
  rcases h.life_step g k.client with he | ⟨l, hm, -, -⟩
  · rw [he, hl]
  · have hh := h.holding_of_move g hl hm
    rw [h.lock.no_sender hh k] at hk
    cases hk

theorem Inv.sending_step (h : Inv s) (g : s.guard a) (k : Sender C) (m : Message)
    (hk : (s.effect a g).sender k = .send m) : (s.effect a g).life k.client = .member := by
  by_cases ha : a.sender? = some k
  · cases a
    case check k' m' =>
        cases ha
        by_cases hc : k.client ∈ s.Clients
        · rw [life_eq g rfl]
          exact h.life_eq_member.2 hc
        · simp [effect, hc] at hk
    case candidate c i j =>
        cases ha
        cases j <;> simp [effect, SendAt.called] at hk
    case setLocalDescription c | rLock k' m' | send k' m' | rUnlock k' m' =>
        cases ha
        simp [effect] at hk
    all_goals cases ha
  · rw [sender_frame g ha] at hk
    exact h.member_of_reading g (by rw [hk]; rfl) (h.sending k m hk)

theorem Inv.unregister_step (h : Inv s) (g : s.guard a) :
    ∀ c ∈ (s.effect a g).Unregister.buf, (s.effect a g).life c ≠ .fresh := by
  have hmono {c : C} (hc : s.life c ≠ .fresh) : (s.effect a g).life c ≠ .fresh := fun he ↦
    hc (le_antisymm (he ▸ h.life_mono g c) (by cases s.life c <;> decide))
  have hold : ∀ c ∈ s.Unregister.buf, (s.effect a g).life c ≠ .fresh := fun c hc ↦
    hmono (h.unregister c hc)
  cases a
  case recvUnregister d => exact fun c hc ↦ hold c (List.mem_of_mem_tail hc)
  case readUnregister d =>
      intro c hc
      rcases List.mem_append.1 hc with hc | hc
      · exact hold c hc
      · obtain rfl := List.mem_singleton.1 hc
        refine hmono fun he ↦ absurd (h.life_eq_fresh.1 he) ?_
        simp +decide [g.1]
  case stateUnregister d k =>
      intro c hc
      rcases List.mem_append.1 hc with hc | hc
      · exact hold c hc
      · obtain rfl := List.mem_singleton.1 hc
        have hs := h.control.stateChange c k (by simp [g.1])
        exact hmono fun he ↦ absurd (h.life_eq_fresh.1 he) (not_le.2 (lt_trans (by decide) hs))
  case send k m => simpa [effect] using hold
  case castSend m d rest => simpa [effect] using hold
  all_goals exact hold

theorem Inv.panicked_step (h : Inv s) (g : s.guard a) : (s.effect a g).panicked = false := by
  have hp := h.panicked
  cases a
  case sendClose c =>
      have hl : s.life c = .removed := h.expects g
      simp [effect, hp, h.sendClosed_eq_false (c := c) (by simp [hl])]
  case doneSend c =>
      have hl : s.life c = .member := h.expects g
      simp [effect, hp, h.sendClosed_eq_false (c := c) (by simp [hl])]
  case castSend m c rest =>
      have hl : s.life c = .member := (h.expects g.1).1
      simp [effect, hp, deliver_of_open (h.sendClosed_eq_false (c := c) (by simp [hl]))]
  case send k m =>
      have hl : s.life k.client = .member := h.sending k m g.1
      simp [effect, hp, deliver_of_open (h.sendClosed_eq_false (c := k.client) (by simp [hl]))]
  all_goals exact hp

/-- **The invariant of the hub** is preserved by every step. -/
theorem Inv.step (h : Inv s) (g : s.guard a) : Inv (s.effect a g) where
  control := h.control.step g
  lock := h.lock.step h.control g
  life c := by
    by_cases hm : ∃ l, a.move? = some (c, l)
    · obtain ⟨l, hl⟩ := hm
      rw [h.life_move g hl, h.bits_of_move g hl]
    · rw [bits_frame g (not_exists.1 hm), life_frame g (not_exists.1 hm), h.life c]
  run := h.run_step g
  sending := h.sending_step g
  unregister := h.unregister_step g
  panicked := h.panicked_step g

end Hub

/-! ## Refinement -/

variable [DecidableEq C] {ok : Hub C → Action C → Prop}

/-- The invariant holds in every state that a run reaches. -/
theorem inv_of_reach {h : List (Event C)} {s : Hub C} (hr : (hub C).Reach ok h s) : s.Inv :=
  hr.invariant_state (by rintro _ rfl; exact .new) fun _ _ g hi _ ↦ hi.step g.2

/-- **The hub refines the lifecycle**: a step of the hub leaves every client in its stage, or is
one step of one client in the abstract machine. -/
theorem hub_refines_lifecycle :
    Simulation (hub C) ok (lifecycle C) (lifecycle C).free (fun s ℓ ↦ s.Inv ∧ s.life = ℓ)
      (fun _ ↦ none) where
  init := by
    rintro _ rfl
    refine ⟨_, rfl, .new, funext fun c ↦ ?_⟩
    exact Hub.Inv.new.life_eq_fresh.2 (show HandlerAt.idle ≤ .register by decide)
  step := by
    rintro s _ a g ⟨hi, rfl⟩ -
    have hmv := hi.step g.2
    cases hm : a.move? with
    | none => exact .inl ⟨⟨hmv, Hub.life_eq g.2 hm⟩, by simp⟩
    | some cl =>
        obtain ⟨c, l⟩ := cl
        refine .inr ⟨(c, l), trivial, hi.next_of_move g.2 hm, ⟨hmv, ?_⟩, by simp [lifecycle]⟩
        funext d
        change ((s.effect a g.2).life) d = Function.update s.life c l d
        by_cases hd : d = c
        · subst hd
          rw [hi.life_move g.2 hm, Function.update_self]
        · rw [Function.update_of_ne hd, Hub.life_frame g.2]
          rintro l' hl
          rw [hm] at hl
          cases hl
          exact hd rfl

end ITG.Webrtc
