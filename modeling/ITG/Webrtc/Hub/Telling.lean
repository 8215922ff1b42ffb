import ITG.Webrtc.Hub.Counts
import ITG.Webrtc.Hub.Progress

/-!
# Telling the viewers

`CurrentLast` says which count is not to be told too early, `WritersStay` which `WriteLoop` is not
to give up.  Under both, when `Run` is at its `select` there is always a count that it may take
next, and to tell it takes `Run` through its broadcast branch only.  So all counts can be told
before anybody else comes or leaves: `canReach_told`.
-/

universe u

namespace ITG.Webrtc

open ITG.Lib

variable {C : Type u}

/-- The broadcast branch of `Run`. -/
def RunAt.telling : RunAt C → Bool
  | .castRLock _ | .castNext _ _ | .castSend _ _ _ | .castRUnlock => true
  | _ => false

variable [DecidableEq C] {h : List (Event C)} {s : Hub C}

namespace Hub

/-- The discipline of `CurrentLast` and of `WritersStay`. -/
def Obliging (s : Hub C) (a : Action C) : Prop := s.CurrentLast a ∧ s.WritersStay a

instance (s : Hub C) : ∀ a, Decidable (s.Obliging a) :=
  fun a ↦ inferInstanceAs (Decidable (s.CurrentLast a ∧ s.WritersStay a))

/-- `Run` tells these clients a count while these counts are waiting, or is through with it. -/
structure Telling (clients : Finset C) (waiting : List ℕ) (s : Hub C) : Prop where
  clients : s.Clients = clients
  infos : s.infos = waiting
  run : s.run = .select ∨ s.run.telling = true

end Hub

variable {clients : Finset C} {waiting : List ℕ}

/-- One step of telling a count. -/
theorem tell_step (hr : (hub C).Reach Hub.Obliging h s) (ht : s.Telling clients waiting)
    {p : RunAt C} (hrun : s.run = p) (a : Action C) (g : s.guard a) (hok : s.Obliging a)
    (hclients : (s.effect a g).Clients = s.Clients) (hinfos : (s.effect a g).infos = s.infos)
    (htell : (s.effect a g).run = .select ∨ (s.effect a g).run.telling = true)
    (hlt : (s.effect a g).rank < p.rank s.Clients.card) :
    (hub C).CanReach Hub.Obliging s fun t ↦ t.Telling clients waiting ∧ t.rank < s.rank := by
  subst hrun
  refine .step a hok ⟨(inv_of_reach hr).panicked, g⟩ (.now ⟨⟨?_, ?_, htell⟩, hlt⟩)
  · exact hclients.trans ht.clients
  · exact hinfos.trans ht.infos

/-- The count is handed to a client whose `WriteLoop` is at its `select`. -/
theorem tell_send (hr : (hub C).Reach Hub.Obliging h s) (ht : s.Telling clients waiting)
    {m : Message} {c : C} {rest : Finset C} (hrun : s.run = .castSend m c rest)
    (hw : s.writer c = .select) :
    (hub C).CanReach Hub.Obliging s fun t ↦ t.Telling clients waiting ∧ t.rank < s.rank := by
  have hclients : (s.deliver c m).Clients = s.Clients := Hub.deliver_Clients ..
  refine tell_step hr ht hrun (.castSend m c rest) ⟨hrun, .inr hw⟩ ⟨trivial, trivial⟩ hclients
    (Hub.deliver_infos ..) (.inr rfl) ?_
  change (RunAt.castNext m rest).rank (s.deliver c m).Clients.card < _
  rw [hclients]
  exact Nat.add_lt_add_right (by decide : 2 < 3) _

/-- `Run` makes progress with telling a count. -/
theorem tell_progress (hr : (hub C).Reach Hub.Obliging h s)
    (ht : s.Telling clients waiting) (hn : s.run ≠ .select) :
    (hub C).CanReach Hub.Obliging s fun t ↦ t.Telling clients waiting ∧ t.rank < s.rank := by
  have hi := inv_of_reach hr
  have htelling := ht.run.resolve_left hn
  cases hrun : s.run with
  | castRLock m =>
      have hread : s.mu.CanRLock := by
        rw [RWMutex.CanRLock, hi.lock.writer, hrun]
        rfl
      exact tell_step hr ht hrun (.castRLock m) ⟨hrun, hread⟩ ⟨trivial, trivial⟩ rfl rfl (.inr rfl)
        (Nat.add_lt_add_right (by decide : 2 < 3) _)
  | castNext m rest =>
      rcases rest.eq_empty_or_nonempty with rfl | ⟨c, hc⟩
      · exact tell_step hr ht hrun (.castEnd m) hrun ⟨trivial, trivial⟩ rfl rfl (.inr rfl)
          (Nat.lt_succ_self _)
      · refine tell_step hr ht hrun (.castPick m c rest) ⟨hrun, hc⟩ ⟨trivial, trivial⟩ rfl rfl
          (.inr rfl) ?_
        have hlt := Finset.card_erase_lt_of_mem hc
        change 3 + 2 * (rest.erase c).card < 2 + 2 * rest.card
        omega
  | castSend m c rest =>
      have hsend : s.SendingTo c := .inl ⟨m, rest, hrun⟩
      rcases writer_alive (hr.mono fun _ _ ↦ And.right) hsend with hw | ⟨m', hw⟩
      · exact tell_send hr ht hrun hw
      · -- the client is still writing an earlier message
        have g : (hub C).guard s (.writeOk c m') := ⟨hi.panicked, hw⟩
        have hok : s.Obliging (.writeOk c m') := ⟨trivial, trivial⟩
        exact .step (Action.writeOk c m') hok g
          (tell_send (hr.step (Action.writeOk c m') hok g) ⟨ht.clients, ht.infos, ht.run⟩ hrun
            (Function.update_self ..))
  | castRUnlock =>
      exact tell_step hr ht hrun .castRUnlock hrun ⟨trivial, trivial⟩ rfl rfl (.inl rfl)
        (Nat.lt_succ_self _)
  | select => exact absurd hrun hn
  | _ =>
      rw [hrun] at htelling
      cases htelling

/-- There is a count that may be taken next. -/
theorem exists_currentLast (hn : s.CountInv h) (hrun : s.run = .select) (hne : s.infos ≠ []) :
    ∃ n ∈ s.infos, s.infos.erase n = [] ∨ s.Clients.card ∈ s.infos.erase n := by
  have hmem := (hn.waiting (by rw [hrun]; rfl)).resolve_left hne
  by_cases hall : ∀ n ∈ s.infos, n = s.Clients.card
  · -- all that wait are the current count, and one more of them remains or none
    refine ⟨_, hmem, ?_⟩
    cases he : s.infos.erase s.Clients.card with
    | nil => exact .inl rfl
    | cons n ns =>
        have hn' : n ∈ s.infos.erase s.Clients.card := he ▸ List.mem_cons_self
        exact .inr (hall n (List.mem_of_mem_erase hn') ▸ List.mem_cons_self)
  · obtain ⟨n, hn', hne'⟩ := not_forall₂.1 hall
    exact ⟨n, hn', .inr ((List.mem_erase_of_ne (Ne.symm hne')).2 hmem)⟩

/-- From its `select`, `Run` can tell a count and get back there. -/
theorem canReach_tell (hr : (hub C).Reach Hub.Obliging h s) (hrun : s.run = .select)
    (hne : s.infos ≠ []) :
    (hub C).CanReach Hub.Obliging s fun t ↦
      (t.Clients = s.Clients ∧ t.run = .select) ∧ t.infos.length < s.infos.length := by
  have hcount := countInv_of_reach (hr.mono fun _ _ ↦ And.left)
  obtain ⟨n, hn, hok⟩ := exists_currentLast hcount hrun hne
  have g : (hub C).guard s (.recvBroadcast n) := ⟨(inv_of_reach hr).panicked, hrun, hn⟩
  refine .step (Action.recvBroadcast n) ⟨hok, trivial⟩ g ?_
  have ht : (s.effect (.recvBroadcast n) g.2).Telling s.Clients (s.infos.erase n) :=
    ⟨rfl, rfl, .inr rfl⟩
  refine ((hr.step (Action.recvBroadcast n) ⟨hok, trivial⟩ g).canReach
    (P := fun t ↦ t.Telling s.Clients (s.infos.erase n))
    (Q := fun t ↦ t.Telling s.Clients (s.infos.erase n) ∧ t.run = .select) Hub.rank ?_ ht).mono ?_
  · intro h t hr ht hq
    exact tell_progress hr ht fun hsel ↦ hq ⟨ht, hsel⟩
  · rintro t ⟨ht, hsel⟩
    refine ⟨⟨ht.clients, hsel⟩, ?_⟩
    rw [ht.infos, List.length_erase_of_mem hn]
    exact Nat.sub_lt (List.length_pos_of_mem hn) Nat.one_pos

/-- All counts can be told. -/
theorem canReach_told (hr : (hub C).Reach Hub.Obliging h s) (hrun : s.run = .select) :
    (hub C).CanReach Hub.Obliging s fun t ↦
      (t.Clients = s.Clients ∧ t.run = .select) ∧ t.infos = [] := by
  refine (hr.canReach (P := fun t ↦ t.Clients = s.Clients ∧ t.run = .select)
    (Q := fun t ↦ (t.Clients = s.Clients ∧ t.run = .select) ∧ t.infos = [])
    (fun t ↦ t.infos.length) ?_ ⟨rfl, hrun⟩)
  rintro h t hr hP hq
  refine (canReach_tell hr hP.2 fun hnil ↦ hq ⟨hP, hnil⟩).mono ?_
  rintro r ⟨⟨hclients, hsel⟩, hlt⟩
  exact ⟨⟨hclients.trans hP.1, hsel⟩, hlt⟩

end ITG.Webrtc
