import ITG.Webrtc.Hub.Broadcast

/-!
# Viewer counts

After each change of `Clients`, `Run` counts the clients and starts a goroutine that broadcasts the
count.  The goroutines that are under way at the same time wait on one unbuffered channel, and `Run`
may take from any of them first.  So an old count can be the last one that the viewers are told
(`stale_count`).

If `Run` does not take the current count while others are waiting, then the current count is waiting
until it is the last: `counts_converge`.
-/

universe u

namespace ITG.Webrtc

open ITG.Lib

variable {C : Type u}

/-- The program points at which the last change of `Clients` has been counted and its `SendInfo` has
been started. -/
def RunAt.counted : RunAt C → Bool
  | .select | .unregRLock _ | .unregCheck _ | .unregRUnlock _ _ | .castRLock _ | .castNext _ _
  | .castSend _ _ _ | .castRUnlock => true
  | .wantLock _ | .waitLock _ | .locked _ | .doneClose _ | .unlock _ | .connClose _ | .sendClose _
  | .infoRLock | .infoLen | .infoRUnlock _ | .goSendInfo _ | .returned => false

namespace Hub

/-- The discipline under which `Run` does not take the last message that carries the current number
of clients while other messages are waiting. -/
def CurrentLast (s : Hub C) : Action C → Prop
  | .recvBroadcast n => s.infos.erase n = [] ∨ s.Clients.card ∈ s.infos.erase n
  | _ => True

instance (s : Hub C) : ∀ a, Decidable (s.CurrentLast a) := by
  intro a
  apply Action.casesOn (motive := fun a ↦ Decidable (s.CurrentLast a)) a <;>
    (intros; dsimp only [CurrentLast]; infer_instance)

variable [DecidableEq C] {s : Hub C} {a : Action C} {h : List (Event C)}

/-- The current number of clients is waiting to be told, or is being told, or has been told. -/
structure CountInv (h : List (Event C)) (s : Hub C) : Prop where
  /-- A count that `Run` has made is right until it is sent. -/
  count : ∀ n, s.run = .infoRUnlock n ∨ s.run = .goSendInfo n → n = s.Clients.card
  waiting : s.run.counted = true → s.infos = [] ∨ s.Clients.card ∈ s.infos
  /-- The last message that waited carries the current number. -/
  casting : s.run.counted = true → s.infos = [] →
    ∀ m, s.run.casting = some m → m = .info s.Clients.card
  told : s.run.counted = true → s.infos = [] → ∀ c ∈ s.Clients, s.owed c = [] →
    (heard c h).getLast? = some (.info s.Clients.card)

theorem CountInv.new : CountInv [] (new : Hub C) where
  count := by simp [Hub.new]
  waiting _ := .inl rfl
  casting := by simp [Hub.new, RunAt.casting]
  told _ _ c hc := absurd hc (Finset.notMem_empty c)

/-- A step that changes neither `Clients` nor the waiting messages, and leaves `Run` where counts
are up to date. -/
theorem CountInv.of_quiet (hn : CountInv h s) (hi : Inv s) (hc : CastInv h s) (g : s.guard a)
    (hcast : ∀ m, s.run.casting = some m → ∃ n, m = .info n) (hrun : s.run.counted = true)
    (hb : ∀ n, a ≠ .recvBroadcast n) (hclients : (s.effect a g).Clients = s.Clients)
    (hinfos : (s.effect a g).infos = s.infos)
    (hcount : ∀ n, ¬ ((s.effect a g).run = .infoRUnlock n ∨ (s.effect a g).run = .goSendInfo n))
    (hcasting : ∀ m, (s.effect a g).run.casting = some m → s.run.casting = some m) :
    CountInv (h ++ s.emit a) (s.effect a g) where
  count n hn' := absurd hn' (hcount n)
  waiting _ := by
    rw [hinfos, hclients]
    exact hn.waiting hrun
  casting _ he m hm := by
    rw [hclients]
    exact hn.casting hrun (hinfos ▸ he) m (hcasting m hm)
  told _ he c hmem howed := by
    rw [hclients] at hmem ⊢
    rw [hinfos] at he
    have hstep := hc.owed_step hi g hcast c
    rw [broadcasts_of_ne hb, ite_self, List.append_nil, howed, List.append_nil] at hstep
    have happ : heard c (h ++ s.emit a) = heard c h ++ heard c (s.emit a) := List.filterMap_append
    rw [happ, ← hstep]
    -- either the client was told before, or the step tells it what is being broadcast
    cases howed' : s.owed c with
    | nil =>
        rw [List.append_nil]
        exact hn.told hrun he c hmem howed'
    | cons m ms =>
        obtain ⟨rfl, hm⟩ := RunAt.casting_of_owed howed'
        rw [List.getLast?_concat, hn.casting hrun he m hm]

/-- Where counts are not up to date, only the count that has been made matters. -/
theorem CountInv.of_uncounted {t : Hub C} {k : List (Event C)} (hrun : t.run.counted = false)
    (hcount : ∀ n, t.run = .infoRUnlock n ∨ t.run = .goSendInfo n → n = t.Clients.card) :
    CountInv k t where
  count := hcount
  waiting hc := nomatch hrun.symm.trans hc
  casting hc := nomatch hrun.symm.trans hc
  told hc := nomatch hrun.symm.trans hc

/-- Taking a message. -/
theorem CountInv.recvBroadcast (hn : CountInv h s) {n : ℕ} (g : s.guard (.recvBroadcast n))
    (hok : s.CurrentLast (.recvBroadcast n)) :
    CountInv (h ++ s.emit (.recvBroadcast n)) (s.effect (.recvBroadcast n) g) where
  count := by simp [effect]
  waiting _ := hok
  casting _ he m hm := by
    cases hm
    -- it was the last one that waited, so it carries the current number
    have hmem := (hn.waiting (by rw [g.1]; rfl)).resolve_left (List.ne_nil_of_mem g.2)
    by_cases heq : s.Clients.card = n
    · exact congrArg Message.info heq.symm
    · have hmem' := (List.mem_erase_of_ne heq).2 hmem
      have he' : s.infos.erase n = [] := he
      rw [he'] at hmem'
      cases hmem'
  told _ _ c hmem howed := by
    have hmem' : c ∈ s.Clients := hmem
    simp [owed, effect, RunAt.owed, hmem'] at howed

/-- A step of another goroutine. -/
theorem CountInv.of_other (hn : CountInv h s) (hi : Inv s) (g : s.guard a)
    (hs : ∀ m d rest, a ≠ .castSend m d rest) (hrun : (s.effect a g).run = s.run)
    (hclients : (s.effect a g).Clients = s.Clients) (hinfos : (s.effect a g).infos = s.infos) :
    CountInv (h ++ s.emit a) (s.effect a g) where
  count := by
    rw [hrun, hclients]
    exact hn.count
  waiting := by
    rw [hrun, hclients, hinfos]
    exact hn.waiting
  casting := by
    rw [hrun, hclients, hinfos]
    exact hn.casting
  told hc he c hmem howed := by
    have happ : heard c (h ++ s.emit a) = heard c h ++ heard c (s.emit a) := List.filterMap_append
    rw [happ, hi.heard_of_ne g hs, List.append_nil, hclients]
    rw [owed, hrun, hclients] at howed
    exact hn.told (hrun ▸ hc) (hinfos ▸ he) c (hclients ▸ hmem) howed

/-- The step lemma. -/
theorem CountInv.step (hn : CountInv h s) (hi : Inv s) (hc : CastInv h s) (g : s.guard a)
    (hcast : ∀ m, s.run.casting = some m → ∃ n, m = .info n) (hok : s.CurrentLast a) :
    CountInv (h ++ s.emit a) (s.effect a g) := by
  cases a
  case recvBroadcast n => exact hn.recvBroadcast g hok
  case goSendInfo n =>
      have hrun : s.run = .goSendInfo n := g
      refine ⟨by simp [effect], fun _ ↦ .inr ?_, fun _ he ↦ ?_, fun _ he ↦ ?_⟩
      · change s.Clients.card ∈ n :: s.infos
        rw [← hn.count n (.inr hrun)]
        exact List.mem_cons_self
      · cases he
      · cases he
  case infoLen => exact .of_uncounted rfl (by simp [effect])
  case infoRUnlock n =>
      refine .of_uncounted rfl fun n' hn' ↦ ?_
      obtain rfl : n = n' := by simpa [effect] using hn'
      exact hn.count n (.inl g)
  case unlock w => cases w <;> exact .of_uncounted rfl (by simp [effect, afterUnlock])
  case recvRegister c | recvDone | announce w | lock w | insert c | delete c | connClose c
    | sendClose c | doneConn c | doneSend c | doneEnd | infoRLock =>
      exact .of_uncounted rfl (by simp [effect])
  case unregRUnlock c ok =>
      have hrun : s.run = .unregRUnlock c ok := g
      cases ok with
      | true => exact .of_uncounted rfl (by simp [effect])
      | false =>
          exact hn.of_quiet hi hc g hcast (by rw [hrun]; rfl) (by simp) rfl rfl (by simp [effect])
            (by simp [effect, RunAt.casting])
  case recvUnregister c | unregRLock c =>
      exact hn.of_quiet hi hc g hcast (by rw [g.1]; rfl) (by simp) rfl rfl (by simp [effect])
        (by simp [effect, RunAt.casting])
  case unregCheck c | castRUnlock =>
      have hrun := g
      simp only [guard] at hrun
      exact hn.of_quiet hi hc g hcast (by rw [hrun]; rfl) (by simp) rfl rfl (by simp [effect])
        (by simp [effect, RunAt.casting])
  case castRLock m | castPick m c rest =>
      exact hn.of_quiet hi hc g hcast (by rw [g.1]; rfl) (by simp) rfl rfl (by simp [effect])
        (by simp [effect, RunAt.casting, g.1])
  case castSend m c rest =>
      exact hn.of_quiet hi hc g hcast (by rw [g.1]; rfl) (by simp) (deliver_Clients ..)
        (deliver_infos ..) (by simp [effect]) (by simp [effect, RunAt.casting, g.1])
  case castEnd m =>
      have hrun : s.run = .castNext m ∅ := g
      exact hn.of_quiet hi hc g hcast (by rw [hrun]; rfl) (by simp) rfl rfl (by simp [effect])
        (by simp [effect, RunAt.casting])
  case send k m =>
      exact hn.of_other hi g (by simp) (deliver_run ..) (deliver_Clients ..) (deliver_infos ..)
  all_goals exact hn.of_other hi g (by simp) rfl rfl rfl

end Hub

variable [DecidableEq C] {h : List (Event C)} {s : Hub C}

/-- The run lemma. -/
theorem countInv_of_reach (hr : (hub C).Reach Hub.CurrentLast h s) : s.CountInv h := by
  refine hr.invariant_of (I := fun h s ↦ s.CountInv h) (fun _ _ hr ↦ And.intro (inv_of_reach hr)
    (And.intro (castInv_of_reach hr) (info_of_casting hr))) ?_ ?_
  · rintro _ rfl
    exact .new
  · rintro h s a g ⟨hi, hc, hcast⟩ - hn hok
    exact hn.step hi hc g.2 hcast hok

/-- **Counts converge**, when `Run` does not take the current count while others are waiting: once
no count is waiting and `Run` is back at its `select`, the last count that every client received is
the number of clients. -/
theorem counts_converge (hr : (hub C).Reach Hub.CurrentLast h s) (hrun : s.run = .select)
    (hinfos : s.infos = []) (c : C) (hc : c ∈ s.Clients) :
    (heard c h).getLast? = some (.info s.Clients.card) := by
  refine (countInv_of_reach hr).told (by rw [hrun]; rfl) hinfos c hc ?_
  rw [Hub.owed, hrun]
  rfl

/-- Two viewers come, and the counts are taken in the order in which they were made. -/
theorem counts_converge_two :
    ∃ h s, (hub ℕ).Reach Hub.CurrentLast h s ∧ s.Clients = {1, 0} ∧
      (heard 0 h).getLast? = some (.info s.Clients.card) := by
  obtain ⟨h, s, hr, hrun, hinfos, hc⟩ := (hub ℕ).exists_of_exec Hub.CurrentLast
    (fun _ s ↦ s.run = .select ∧ s.infos = [] ∧ s.Clients = {1, 0}) rfl
    (connect 0 ++ intake 0 1 ++ connect 1 ++ intake 1 2 ++ castFirst 1 0 {1, 0} {1} ++
      castLast 1 1 ++ castFirst 2 0 {1, 0} {1} ++ castLast 2 1)
    (by decide +kernel)
  exact ⟨h, s, hr, hc, counts_converge hr hrun hinfos 0 (by simp [hc])⟩

/-- Two viewers come, and the second count is taken first: both viewers are left with a count of
one. -/
theorem stale_count :
    ∃ h s, (hub ℕ).Reach (hub ℕ).free h s ∧ s.done = false ∧ s.run = .select ∧
      s.Register.buf = [] ∧ s.Unregister.buf = [] ∧ s.infos = [] ∧ s.Clients.card = 2 ∧
      (∀ c ∈ s.Clients, s.writer c = .select) ∧
      ∀ c ∈ s.Clients, (heard c h).getLast? = some (.info 1) :=
  (hub ℕ).exists_of_exec (hub ℕ).free
    (fun h s ↦ s.done = false ∧ s.run = .select ∧ s.Register.buf = [] ∧ s.Unregister.buf = [] ∧
      s.infos = [] ∧ s.Clients.card = 2 ∧ (∀ c ∈ s.Clients, s.writer c = .select) ∧
      ∀ c ∈ s.Clients, (heard c h).getLast? = some (.info 1)) rfl
    (connect 0 ++ intake 0 1 ++ connect 1 ++ intake 1 2 ++ castFirst 2 0 {1, 0} {1} ++
      castLast 2 1 ++ castFirst 1 0 {1, 0} {1} ++ castLast 1 1)
    (by decide +kernel)

end ITG.Webrtc
