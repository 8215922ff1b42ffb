import Mathlib.Data.List.Chain
import ITG.Webrtc.Server.Creators

/-!
# Teardown of a stream

`deleteStream` takes a stream out of the map under the lock, and closes its socket and its hub
after releasing it.  Meanwhile other calls may look up the same port, and `createStream` may bind it
again.  `teardown_once` says that this harms nobody: what a run does to tear a stream down is a
prefix of the `teardown` of a single call, the one that removed it.

All of it holds of every run, also if reads on open sockets fail.  `Torn` is the invariant; its one
idea is `Torn.next`: an action that tears a stream down is always the next one of that stream's
`teardown`.  A call that finds no entry can be erased from a run, `erase_of_vain`.
-/

universe u

namespace ITG.Webrtc

open ITG.Lib

/-- The stream that a call of `createStream` has not yet put in the map. -/
def CallAt.making : CallAt → Option ℕ
  | .tracks i | .listenerClose i | .createLock i | .insert i => some i
  | _ => none

/-- The stream that a call of `deleteStream` has taken out of the map, and how many steps of its
teardown are done. -/
def CallAt.tearing : CallAt → Option (ℕ × ℕ)
  | .deleteUnlock (some i) | .connClose i => some (i, 1)
  | .hubClose i => some (i, 2)
  | .doneClose i => some (i, 3)
  | _ => none

theorem CallAt.creating_of_making {p : CallAt} {i : ℕ} (h : p.making = some i) :
    p.creating = some i := by
  cases p <;> first | exact h | cases h

theorem CallAt.tearing_bounds {p : CallAt} {i n : ℕ} (h : p.tearing = some (i, n)) :
    0 < n ∧ n ≤ 3 := by
  unfold CallAt.tearing at h
  split at h <;> cases h <;> decide

@[simp] theorem making_streamHandler (r : Request) : (streamHandler r).making = none :=
  apply_streamHandler r (fun _ ↦ rfl) (fun _ ↦ rfl) fun _ ↦ rfl

@[simp] theorem tearing_streamHandler (r : Request) : (streamHandler r).tearing = none :=
  apply_streamHandler r (fun _ ↦ rfl) (fun _ ↦ rfl) fun _ ↦ rfl

@[simp] theorem tearing_afterUnlock (found : Option ℕ) :
    (Server.afterUnlock found).tearing = (CallAt.deleteUnlock found).tearing := by
  cases found <;> rfl

namespace Server

variable {K : Type u}

/-! ## The actions of a call -/

/-- Who takes a step, if it is not a reader. -/
def Action.caller : Action K → Option (Caller K)
  | .request k _ | .reply k _ => some (.handler k)
  | .listen k _ _ | .listenError k _ | .tracks k _ | .tracksError k _ | .listenerClose k _
  | .createLock k _ | .insert k _ | .createUnlock k _ | .start k _
  | .deleteLock k _ | .lookup k _ _ | .lookupNone k _ | .delete k _ _ | .deleteUnlock k _
  | .connClose k _ | .hubClose k _ | .doneClose k _ => some k
  | .readError _ | .readerClose _ => none

/-- The steps that tear the stream down. -/
def Action.tears (i : ℕ) : Action K → Bool
  | .delete _ _ j | .connClose _ j | .hubClose _ j | .doneClose _ j => j = i
  | _ => false

/-- What one call does to tear a stream down, besides releasing the lock. -/
def teardown (k : Caller K) (port : ℤ) (i : ℕ) : List (Action K) :=
  [.delete k port i, .connClose k i, .hubClose k i, .doneClose k i]

/-- The step of `deleteStream` may come directly after the other. -/
def Action.Follows (b : Action K) : Action K → Prop
  | .lookup k port _ | .lookupNone k port => b = .deleteLock k port
  | .delete k port i => b = .lookup k port i
  | .deleteUnlock k (some i) => ∃ port, b = .delete k port i
  | .deleteUnlock k none => ∃ port, b = .lookupNone k port
  | .connClose k i => b = .deleteUnlock k (some i)
  | .hubClose k i => b = .connClose k i
  | .doneClose k i => b = .hubClose k i
  | _ => True

/-- The steps of a request that ends without `createStream` having been called or `deleteStream`
having found an entry. -/
def Action.vain : Action K → Bool
  | .request _ _ | .deleteLock _ _ | .lookupNone _ _ | .deleteUnlock _ none | .reply _ _ => true
  | _ => false

variable {s : Server K} {a : Action K} {as : List (Action K)} {k : Caller K} {i : ℕ}

/-- The steps among these that tear the stream down. -/
def torn (as : List (Action K)) (i : ℕ) : List (Action K) := as.filter (·.tears i)

theorem torn_append_of_not (ha : a.tears i = false) : torn (as ++ [a]) i = torn as i := by
  simp [torn, ha]

theorem torn_append (ha : a.tears i = true) : torn (as ++ [a]) i = torn as i ++ [a] := by
  simp [torn, ha]

/-- A step of a teardown tells whose it is. -/
theorem caller_of_mem_teardown {port : ℤ} (h : a ∈ teardown k port i) :
    a.caller = some k ∧ a.tears i = true := by
  simp only [teardown, List.mem_cons, List.not_mem_nil, or_false] at h
  rcases h with rfl | rfl | rfl | rfl <;> exact ⟨rfl, by simp [Action.tears]⟩

/-- So a part of a teardown with a step in it is of one call. -/
theorem eq_of_take_teardown {k' : Caller K} {port port' : ℤ} {m n : ℕ} (hn : 0 < n) (hn4 : n ≤ 4)
    (hm4 : m ≤ 4) (h : (teardown k port i).take n = (teardown k' port' i).take m) :
    k = k' ∧ port = port' ∧ n = m := by
  have hlen := congrArg List.length h
  rw [List.length_take, List.length_take] at hlen
  obtain rfl : n = m := by
    simp only [teardown, List.length_cons, List.length_nil] at hlen
    omega
  obtain ⟨n, rfl⟩ := Nat.exists_eq_succ_of_ne_zero (Nat.ne_of_gt hn)
  simp only [teardown, List.take_succ_cons, List.cons.injEq, Action.delete.injEq] at h
  exact ⟨h.1.1, h.1.2.1, rfl⟩

variable [DecidableEq K]

/-! ## What a step does to the places of a stream -/

/-- A call has been making its stream since the socket was opened. -/
theorem making_step (g : s.guard a) (hk : ((s.effect a g).call k).making = some i) :
    (s.call k).making = some i ∨ i = s.opened ∧ ∃ port p, a = .listen k port p := by
  rcases of_call_step (·.making = some i) g hk with hk | ⟨p, q, hp, hm, hq⟩
  · exact .inl hk
  · rw [hp]
    cases hm with
    | listen =>
        cases hq
        exact .inr ⟨rfl, _, _, rfl⟩
    | tracks | tracksError | createLock => exact .inl hq
    | request => simp at hq
    | _ => cases hq

/-- A call that is tearing a stream down was as far before, or has just taken a step of the
teardown. -/
theorem tearing_step {n : ℕ} (g : s.guard a)
    (hk : ((s.effect a g).call k).tearing = some (i, n)) :
    (s.call k).tearing = some (i, n) ∧ (a.tears i = true → a.caller ≠ some k) ∨
      (∃ port, a = .delete k port i ∧ n = 1) ∨
      ∃ m, (s.call k).tearing = some (i, m) ∧ n = m + 1 ∧
        ∀ port, (teardown k port i)[m]? = some a := by
  have hother {k' : Caller K} (hne : k ≠ k') : some k' ≠ some k := fun h ↦
    hne (Option.some.inj h).symm
  -- a step that tears nothing down
  have hsame {k' : Caller K} {p : CallAt} (ha : a.tears i = false)
      (hp : p.tearing = some (i, n) → (s.call k').tearing = some (i, n))
      (hk : (Function.update s.call k' p k).tearing = some (i, n)) :
      (s.call k).tearing = some (i, n) ∧ (a.tears i = true → a.caller ≠ some k) := by
    refine ⟨?_, fun ht ↦ absurd ht (by simp [ha])⟩
    rcases of_call_update (·.tearing = some (i, n)) hk with hk | ⟨rfl, hkp⟩
    · exact hk
    · exact hp hkp
  cases a with
  | delete k' port j =>
      rcases of_call_update_ne (·.tearing = some (i, n)) hk with ⟨hne, hk⟩ | ⟨rfl, hp⟩
      · exact .inl ⟨hk, fun _ ↦ hother hne⟩
      · cases hp
        exact .inr (.inl ⟨port, rfl, rfl⟩)
  | connClose k' j =>
      have hj : s.call k' = .connClose j := g
      rcases of_call_update_ne (·.tearing = some (i, n)) hk with ⟨hne, hk⟩ | ⟨rfl, hp⟩
      · exact .inl ⟨hk, fun _ ↦ hother hne⟩
      · cases hp
        exact .inr (.inr ⟨1, by rw [hj]; rfl, rfl, fun _ ↦ rfl⟩)
  | hubClose k' j =>
      have hj : s.call k' = .hubClose j := g
      rcases of_call_update_ne (·.tearing = some (i, n)) hk with ⟨hne, hk⟩ | ⟨rfl, hp⟩
      · exact .inl ⟨hk, fun _ ↦ hother hne⟩
      · split at hp
        · cases hp
        · cases hp
          exact .inr (.inr ⟨2, by rw [hj]; rfl, rfl, fun _ ↦ rfl⟩)
  | doneClose k' j =>
      rcases of_call_update_ne (·.tearing = some (i, n)) hk with ⟨hne, hk⟩ | ⟨rfl, hp⟩
      · exact .inl ⟨hk, fun _ ↦ hother hne⟩
      · cases hp
  | deleteUnlock k' found =>
      refine .inl (hsame rfl (fun hp ↦ ?_) hk)
      rw [show s.call k' = _ from g]
      rwa [tearing_afterUnlock] at hp
  | request k' r => exact .inl (hsame rfl (fun hp ↦ by simp at hp) hk)
  | readError j | readerClose j => exact .inl ⟨hk, fun ha ↦ by cases ha⟩
  | _ => exact .inl (hsame rfl (fun hp ↦ by cases hp) hk)

/-- An entry of the map was there before, or has just been inserted. -/
theorem streams_step {p : ℤ} (g : s.guard a) (hp : (s.effect a g).streams p = some i) :
    s.streams p = some i ∧ (∀ k, a ≠ .delete k p i) ∨ ∃ k, a = .insert k i ∧ p = s.port i := by
  cases a with
  | insert k j =>
      by_cases hpj : p = s.port j
      · subst hpj
        have hij : j = i := by simpa [effect] using hp
        exact .inr ⟨k, by rw [hij], by rw [hij]⟩
      · exact .inl ⟨by simpa [effect, hpj] using hp, fun _ ha ↦ by cases ha⟩
  | delete k port j =>
      by_cases hpp : p = port
      · subst hpp
        simp [effect] at hp
      · refine .inl ⟨by simpa [effect, hpp] using hp, fun k' ha ↦ hpp ?_⟩
        cases ha
        rfl
  | _ => exact .inl ⟨hp, fun _ ha ↦ by cases ha⟩

/-- A socket keeps its port. -/
theorem port_step (g : s.guard a) (hi : i < s.opened) : (s.effect a g).port i = s.port i := by
  cases a with
  | listen k port p => simp [effect, Nat.ne_of_lt hi]
  | _ => rfl

/-- A hub that is closed was so before, or has just been closed. -/
theorem hubDone_step (g : s.guard a) (hd : (s.effect a g).hubDone i = true) :
    s.hubDone i = true ∨ ∃ k, a = .doneClose k i := by
  cases a with
  | doneClose k j =>
      by_cases hij : i = j
      · exact .inr ⟨k, by rw [hij]⟩
      · exact .inl (by simpa [effect, hij] using hd)
  | _ => exact .inl hd

/-! ## The invariant -/

/-- What the server keeps in a run with these actions. -/
structure Torn (as : List (Action K)) (s : Server K) : Prop where
  locked : Locked s
  found : ∀ k port i, s.call k = .delete port i → s.streams port = some i
  /-- A stream in the map is listed under its port only, and nobody has begun to tear it down. -/
  listed : ∀ p i, s.streams p = some i → i < s.opened ∧ s.port i = p ∧ torn as i = []
  making : ∀ k i, (s.call k).making = some i →
    i < s.opened ∧ torn as i = [] ∧ ∀ p, s.streams p ≠ some i
  tearing : ∀ k i n, (s.call k).tearing = some (i, n) →
    ∃ port, torn as i = (teardown k port i).take n
  fresh : ∀ i, s.opened ≤ i → torn as i = []
  trail : ∀ i, ∃ k port, torn as i <+: teardown k port i
  hubDone : ∀ i, s.hubDone i = true → (torn as i).length = 4
  panicked : s.panicked = false

namespace Torn

omit [DecidableEq K] in
/-- An action that tears a stream down is the next one of a teardown of it. -/
theorem next (h : Torn as s) (g : s.guard a) (ha : a.tears i = true) :
    ∃ k port n, (teardown k port i)[n]? = some a ∧ torn as i = (teardown k port i).take n := by
  cases a with
  | delete k port j =>
      obtain rfl : j = i := by simpa [Action.tears] using ha
      exact ⟨k, port, 0, rfl, (h.listed port j (h.found k port j g)).2.2⟩
  | connClose k j =>
      obtain rfl : j = i := by simpa [Action.tears] using ha
      obtain ⟨port, ht⟩ := h.tearing k j 1 (by rw [show s.call k = _ from g]; rfl)
      exact ⟨k, port, 1, rfl, ht⟩
  | hubClose k j =>
      obtain rfl : j = i := by simpa [Action.tears] using ha
      obtain ⟨port, ht⟩ := h.tearing k j 2 (by rw [show s.call k = _ from g]; rfl)
      exact ⟨k, port, 2, rfl, ht⟩
  | doneClose k j =>
      obtain rfl : j = i := by simpa [Action.tears] using ha
      obtain ⟨port, ht⟩ := h.tearing k j 3 (by rw [show s.call k = _ from g]; rfl)
      exact ⟨k, port, 3, rfl, ht⟩
  | _ => cases ha

omit [DecidableEq K] in
/-- The first one is the `delete`, and that takes the stream out of the map. -/
theorem delete_of_nil (h : Torn as s) (g : s.guard a) (ha : a.tears i = true)
    (hnil : torn as i = []) : ∃ k, a = .delete k (s.port i) i ∧ s.streams (s.port i) = some i := by
  obtain ⟨k, port, n, hn, ht⟩ := h.next g ha
  obtain rfl : n = 0 := by
    rw [hnil, eq_comm, List.take_eq_nil_iff] at ht
    exact ht.resolve_right nofun
  obtain rfl : Action.delete k port i = a := Option.some.inj hn
  have hfound := h.found k port i g
  obtain rfl := (h.listed port i hfound).2.1
  exact ⟨k, rfl, hfound⟩

omit [DecidableEq K] in
/-- While a call is tearing a stream down, the next action is that call's. -/
theorem caller_of_tearing (h : Torn as s) (g : s.guard a) (ha : a.tears i = true) {n : ℕ}
    (hk : (s.call k).tearing = some (i, n)) : a.caller = some k := by
  obtain ⟨k', port', m, hm, ht'⟩ := h.next g ha
  obtain ⟨port, ht⟩ := h.tearing k i n hk
  obtain ⟨hn, hn3⟩ := CallAt.tearing_bounds hk
  obtain ⟨hlt, hma⟩ := List.getElem?_eq_some_iff.1 hm
  obtain ⟨rfl, -, -⟩ := eq_of_take_teardown hn (Nat.le_succ_of_le hn3) (Nat.le_of_lt hlt)
    (ht.symm.trans ht')
  exact (caller_of_mem_teardown (hma ▸ List.getElem_mem hlt)).1

theorem listed_step (h : Torn as s) (g : s.guard a) {p : ℤ}
    (hp : (s.effect a g).streams p = some i) :
    i < (s.effect a g).opened ∧ (s.effect a g).port i = p ∧ torn (as ++ [a]) i = [] := by
  rcases streams_step g hp with ⟨hs, hne⟩ | ⟨k, rfl, rfl⟩
  · obtain ⟨hi, rfl, hnil⟩ := h.listed p i hs
    refine ⟨Nat.lt_of_lt_of_le hi (opened_le g), port_step g hi, ?_⟩
    by_cases ha : a.tears i = true
    · obtain ⟨k, hd, -⟩ := h.delete_of_nil g ha hnil
      exact absurd hd (hne k)
    · rw [torn_append_of_not (by simpa using ha), hnil]
  · have hk : s.call k = .insert i := g
    obtain ⟨hi, hnil, -⟩ := h.making k i (by rw [hk]; rfl)
    exact ⟨hi, rfl, by rw [torn_append_of_not rfl, hnil]⟩

/-- A stream that is made by one call is put in the map by no other. -/
theorem making_step (h : Torn as s) {es : List (Event K)} (hc : Creators es s) (g : s.guard a)
    (hk : ((s.effect a g).call k).making = some i) :
    i < (s.effect a g).opened ∧ torn (as ++ [a]) i = [] ∧
      ∀ p, (s.effect a g).streams p ≠ some i := by
  rcases Server.making_step g hk with hm | ⟨rfl, port, p, rfl⟩
  · obtain ⟨hi, hnil, hun⟩ := h.making k i hm
    refine ⟨Nat.lt_of_lt_of_le hi (opened_le g), ?_, fun p hp ↦ ?_⟩
    · by_cases ha : a.tears i = true
      · obtain ⟨-, -, hs⟩ := h.delete_of_nil g ha hnil
        exact absurd hs (hun _)
      · rw [torn_append_of_not (by simpa using ha), hnil]
    · rcases streams_step g hp with ⟨hs, -⟩ | ⟨k', rfl, -⟩
      · exact hun p hs
      · have hk' : s.call k' = .insert i := g
        obtain rfl : k = k' :=
          hc.alone k k' i (CallAt.creating_of_making hm) (by rw [hk']; rfl)
        simp [effect, CallAt.making] at hk
  · refine ⟨Nat.lt_succ_self _, ?_, fun q hq ↦ ?_⟩
    · rw [torn_append_of_not rfl, h.fresh _ (Nat.le_refl _)]
    · exact Nat.lt_irrefl _ (h.listed q _ hq).1

theorem tearing_step (h : Torn as s) (g : s.guard a) {n : ℕ}
    (hk : ((s.effect a g).call k).tearing = some (i, n)) :
    ∃ port, torn (as ++ [a]) i = (teardown k port i).take n := by
  rcases Server.tearing_step g hk with ⟨hs, hne⟩ | ⟨port, rfl, rfl⟩ | ⟨m, hs, rfl, hm⟩
  · obtain ⟨port, ht⟩ := h.tearing k i n hs
    by_cases ha : a.tears i = true
    · exact absurd (h.caller_of_tearing g ha hs) (hne ha)
    · exact ⟨port, by rw [torn_append_of_not (by simpa using ha), ht]⟩
  · have hnil := (h.listed port i (h.found k port i g)).2.2
    exact ⟨port, by rw [torn_append (by simp [Action.tears]), hnil]; rfl⟩
  · obtain ⟨port, ht⟩ := h.tearing k i m hs
    have ha := (caller_of_mem_teardown (List.mem_of_getElem? (hm port))).2
    exact ⟨port, by rw [torn_append ha, ht, List.take_add_one, hm port]; rfl⟩

theorem fresh_step (h : Torn as s) (g : s.guard a) (hi : (s.effect a g).opened ≤ i) :
    torn (as ++ [a]) i = [] := by
  have hle := Nat.le_trans (opened_le g) hi
  have hnil := h.fresh i hle
  by_cases ha : a.tears i = true
  · obtain ⟨-, -, hs⟩ := h.delete_of_nil g ha hnil
    exact absurd (h.listed _ i hs).1 (Nat.not_lt_of_le hle)
  · rw [torn_append_of_not (by simpa using ha), hnil]

omit [DecidableEq K] in
/-- The trail grows by what comes next in the teardown. -/
theorem trail_step (h : Torn as s) (g : s.guard a) (i : ℕ) :
    ∃ k port, torn (as ++ [a]) i <+: teardown k port i := by
  by_cases ha : a.tears i = true
  · obtain ⟨k, port, n, hn, ht⟩ := h.next g ha
    have hsucc : torn (as ++ [a]) i = (teardown k port i).take (n + 1) := by
      rw [torn_append ha, ht, List.take_add_one, hn]
      rfl
    exact ⟨k, port, hsucc ▸ List.take_prefix (n + 1) _⟩
  · rw [torn_append_of_not (by simpa using ha)]
    exact h.trail i

theorem hubDone_step (h : Torn as s) (g : s.guard a) (hd : (s.effect a g).hubDone i = true) :
    (torn (as ++ [a]) i).length = 4 := by
  rcases Server.hubDone_step g hd with hs | ⟨k, rfl⟩
  · have hlen := h.hubDone i hs
    by_cases ha : a.tears i = true
    · -- nothing is left to do of a teardown that has closed the hub
      obtain ⟨k, port, n, hn, ht⟩ := h.next g ha
      obtain ⟨hlt, -⟩ := List.getElem?_eq_some_iff.1 hn
      rw [ht, List.length_take, Nat.min_eq_left (Nat.le_of_lt hlt)] at hlen
      exact absurd hlt (hlen ▸ Nat.lt_irrefl 4)
    · rwa [torn_append_of_not (by simpa using ha)]
  · have hk : s.call k = .doneClose i := g
    obtain ⟨port, ht⟩ := h.tearing k i 3 (by rw [hk]; rfl)
    rw [torn_append (by simp [Action.tears]), ht]
    rfl

/-- The hub is closed once, so `close(h.done)` does not panic. -/
theorem panicked_step (h : Torn as s) (g : s.guard a) : (s.effect a g).panicked = false := by
  cases a with
  | doneClose k i =>
      have hk : s.call k = .doneClose i := g
      obtain ⟨port, ht⟩ := h.tearing k i 3 (by rw [hk]; rfl)
      refine Bool.eq_false_iff.2 fun hd ↦ ?_
      have hlen := h.hubDone i hd
      rw [ht] at hlen
      cases hlen
  | _ => exact h.panicked

/-- The step lemma. -/
theorem step (h : Torn as s) {es : List (Event K)} (hc : Creators es s) (g : s.guard a) :
    Torn (as ++ [a]) (s.effect a g) where
  locked := h.locked.step g
  found _ _ _ := h.locked.found_step h.found g
  listed _ _ := h.listed_step g
  making _ _ := h.making_step hc g
  tearing _ _ _ := h.tearing_step g
  fresh _ := h.fresh_step g
  trail := h.trail_step g
  hubDone _ := h.hubDone_step g
  panicked := h.panicked_step g

theorem new (RTPPort : ℤ) : Torn [] (.new RTPPort : Server K) := by
  have hcall := call_new (K := K) RTPPort
  constructor
  case locked => exact .new RTPPort
  case found =>
    intro k port i hk
    rcases hcall k with h | h <;> cases h.symm.trans hk
  case listed => exact nofun
  case making =>
    intro k i hk
    rcases hcall k with h | h <;> rw [h] at hk <;> cases hk
  case tearing =>
    intro k i n hk
    rcases hcall k with h | h <;> rw [h] at hk <;> cases hk
  case fresh => exact fun _ _ ↦ rfl
  case trail => exact fun _ ↦ ⟨.new, 0, List.nil_prefix⟩
  case hubDone => exact nofun
  case panicked => rfl

end Torn

/-! ## The order of a call's steps -/

/-- The step may lead to this point of `deleteStream`. -/
def Action.LeadsTo (b : Action K) (k : Caller K) : CallAt → Prop
  | .lookup port => b = .deleteLock k port
  | .delete port i => b = .lookup k port i
  | .deleteUnlock (some i) => ∃ port, b = .delete k port i
  | .deleteUnlock none => ∃ port, b = .lookupNone k port
  | .connClose i => b = .deleteUnlock k (some i)
  | .hubClose i => b = .connClose k i
  | .doneClose i => b = .hubClose k i
  | _ => True

/-- The steps among these that the caller takes. -/
def steps (as : List (Action K)) (k : Caller K) : List (Action K) :=
  as.filter fun a ↦ a.caller = some k

/-- A step changes the program point of nobody else. -/
theorem call_of_caller_ne (g : s.guard a) (ha : a.caller ≠ some k) :
    (s.effect a g).call k = s.call k := by
  have hne {k' : Caller K} (hk' : a.caller = some k') : k ≠ k' := by
    rintro rfl
    exact ha hk'
  cases a with
  | readError i | readerClose i => rfl
  | _ => exact Function.update_of_ne (hne rfl) _ _

theorem leadsTo_step (g : s.guard a) (ha : a.caller = some k) :
    a.LeadsTo k ((s.effect a g).call k) := by
  cases a with
  | readError i | readerClose i => cases ha
  | request k' r =>
      obtain rfl := Option.some.inj ha
      simp only [effect, call_move, Function.update_self]
      rcases streamHandler_cases r with ⟨_, h⟩ | ⟨_, h⟩ | h | h <;> rw [h] <;> trivial
  | deleteUnlock k' found =>
      obtain rfl := Option.some.inj ha
      simp only [effect, call_move, Function.update_self]
      cases found with
      | none => trivial
      | some i => exact rfl
  | hubClose k' i =>
      obtain rfl := Option.some.inj ha
      simp only [effect, call_move, Function.update_self]
      split <;> trivial
  | _ =>
      obtain rfl := Option.some.inj ha
      simp [effect, Action.LeadsTo]

omit [DecidableEq K] in
theorem follows_of_leadsTo {b : Action K} (g : s.guard a) (ha : a.caller = some k)
    (hb : b.LeadsTo k (s.call k)) : b.Follows a := by
  cases a with
  | lookup k' port i | lookupNone k' port =>
      obtain rfl := Option.some.inj ha
      rwa [g.1] at hb
  | delete k' port i | connClose k' i | hubClose k' i | doneClose k' i =>
      obtain rfl := Option.some.inj ha
      rwa [show s.call _ = _ from g] at hb
  | deleteUnlock k' found =>
      obtain rfl := Option.some.inj ha
      rw [show s.call _ = _ from g] at hb
      cases found <;> exact hb
  | _ => trivial

/-- The steps of each call come in the order of its text. -/
structure Ordered (as : List (Action K)) (s : Server K) : Prop where
  chain : ∀ k, (steps as k).IsChain Action.Follows
  last : ∀ k, ∀ b ∈ (steps as k).getLast?, b.LeadsTo k (s.call k)

theorem Ordered.step (h : Ordered as s) (g : s.guard a) : Ordered (as ++ [a]) (s.effect a g) := by
  have hother {k : Caller K} (ha : a.caller ≠ some k) : steps (as ++ [a]) k = steps as k := by
    simp [steps, ha]
  have hself {k : Caller K} (ha : a.caller = some k) :
      steps (as ++ [a]) k = steps as k ++ [a] := by
    simp [steps, ha]
  constructor
  case chain =>
    intro k
    by_cases ha : a.caller = some k
    · rw [hself ha, List.isChain_append]
      refine ⟨h.chain k, .singleton a, fun b hb a' ha' ↦ ?_⟩
      cases ha'
      exact follows_of_leadsTo g ha (h.last k b hb)
    · rw [hother ha]
      exact h.chain k
  case last =>
    intro k b hb
    by_cases ha : a.caller = some k
    · rw [hself ha, List.getLast?_concat] at hb
      cases hb
      exact leadsTo_step g ha
    · rw [hother ha] at hb
      rw [call_of_caller_ne g ha]
      exact h.last k b hb

/-! ## Calls that find nothing -/

/-- The server without what the handler is doing. -/
def erase (s : Server K) (k : K) : Server K :=
  { s with
    call := Function.update s.call (.handler k) .idle
    mu := s.mu.filter (· ≠ .handler k) }

/-- An idle handler is not missed. -/
theorem erase_of_idle (hl : Locked s) {k : K} (hk : s.call (.handler k) = .idle) :
    s.erase k = s := by
  have hmu : s.mu.filter (· ≠ .handler k) = s.mu := by
    cases hm : s.mu with
    | none => rfl
    | some k' =>
        have hne : k' ≠ .handler k := by
          rintro rfl
          have hlocked := (hl _).2 hm
          rw [hk] at hlocked
          cases hlocked
        simp [Option.filter, hne]
  rw [erase, hmu, ← hk, Function.update_eq_self]

/-- The steps of the others do not depend on the handler, except that it may keep them waiting. -/
theorem erase_step (g : s.guard a) {k : K} (ha : a.caller ≠ some (.handler k)) :
    ∃ g' : (s.erase k).guard a, (s.erase k).effect a g' = (s.effect a g).erase k := by
  have hne {k' : Caller K} (hk' : a.caller = some k') : k' ≠ .handler k := by
    rintro rfl
    exact ha hk'
  have hcall {k' : Caller K} (hk' : a.caller = some k') : (s.erase k).call k' = s.call k' :=
    Function.update_of_ne (hne hk') _ _
  have hfree (h : s.mu = none) : (s.erase k).mu = none := by
    simp [erase, h]
  have hcomm {k' : Caller K} (hk' : a.caller = some k') (p : CallAt) :
      Function.update (s.erase k).call k' p =
        Function.update (Function.update s.call k' p) (.handler k) .idle :=
    Function.update_comm (hne hk').symm _ _ _
  cases a with
  | readError i | readerClose i => exact ⟨g, rfl⟩
  | request k' r =>
      have hnew : (s.erase k).call .new = s.call .new := by
        have hne : Caller.new ≠ .handler k := nofun
        simp [erase, hne]
      refine ⟨⟨(hcall rfl).trans g.1, hnew ▸ g.2⟩, ?_⟩
      simp only [effect, move, hcomm rfl]
      rfl
  | listen k' _ _ | lookup k' _ _ | lookupNone k' _ =>
      refine ⟨⟨(hcall rfl).trans g.1, g.2⟩, ?_⟩
      simp only [effect, move, hcomm rfl]
      rfl
  | createLock k' _ | deleteLock k' _ =>
      refine ⟨⟨(hcall rfl).trans g.1, hfree g.2⟩, ?_⟩
      have hmu : (some k').filter (· ≠ .handler k) = some k' := by
        simp [Option.filter, hne rfl]
      simp only [effect, move, hcomm rfl]
      simp only [erase, hmu]
  | _ =>
      refine ⟨(hcall rfl).trans g, ?_⟩
      simp only [effect, move, hcomm rfl]
      rfl

/-- A step of a call that finds nothing changes only what is erased. -/
theorem erase_of_vain (hl : Locked s) (g : s.guard a) {k : K}
    (ha : a.caller = some (.handler k)) (hv : a.vain = true) :
    (s.effect a g).erase k = s.erase k := by
  cases a with
  | request k' r | reply k' r | lookupNone k' r =>
      cases ha
      simp only [effect, erase, move, Function.update_idem]
  | deleteLock k' port =>
      cases ha
      simp [effect, erase, g.2]
  | deleteUnlock k' found =>
      cases ha
      have hk : s.call (.handler k) = .deleteUnlock found := g
      have hmu : s.mu = some (.handler k) := (hl _).1 (by rw [hk]; rfl)
      simp [effect, erase, hmu, Option.filter]
  | _ => cases hv

end Server

/-! ## Runs -/

open Server

variable {K : Type u} [DecidableEq K] {RTPPort : ℤ} {as bs : List (Server.Action K)}
  {s t : Server K}

/-- A part of a run in which a handler finds nothing is, but for that handler, a part of a run in
which it does nothing. -/
theorem erase_run {ok : Server K → Server.Action K → Prop} {k : K} (hl : Locked s)
    (run : (server K RTPPort).traced.Run ok s bs t)
    (hv : ∀ a ∈ bs, a.caller = some (.handler k) → a.vain = true) :
    Locked t ∧ (server K RTPPort).traced.Run (server K RTPPort).traced.free (s.erase k)
      (bs.filter fun a ↦ a.caller ≠ some (.handler k)) (t.erase k) := by
  induction run with
  | refl => exact ⟨hl, .refl⟩
  | step a run hok g ih =>
      obtain ⟨hlt, ih⟩ := ih fun b hb ↦ hv b (List.mem_append_left _ hb)
      refine ⟨hlt.step g.2, ?_⟩
      change Machine.Run _ _ _ (List.filter _ (_ ++ [a])) _
      by_cases ha : a.caller = some (.handler k)
      · have hva := hv a (List.mem_append_right _ List.mem_cons_self) ha
        have heq : (Machine.effect _ _ a g : Server K).erase k = _ := erase_of_vain hlt g.2 ha hva
        rw [List.filter_append, List.filter_cons_of_neg (by simpa using ha), List.filter_nil,
          List.append_nil, heq]
        exact ih
      · obtain ⟨g', heq⟩ := erase_step g.2 ha
        rw [List.filter_append, List.filter_cons_of_pos (by simpa using ha), List.filter_nil]
        exact heq ▸ ih.step a trivial ⟨g.1, g'⟩

theorem torn_of_reach {ok : Server K → Server.Action K → Prop}
    (hr : (server K RTPPort).traced.Reach ok as s) : Torn as s := by
  refine hr.invariant_of (J := fun as s ↦ Creators (as.flatMap Server.emit) s) (I := Torn) ?_ ?_ ?_
  · intro as s hr
    exact creators_of_reach (hr.of_traced fun _ _ ↦ rfl)
  · rintro _ rfl
    exact .new RTPPort
  · intro as s a g hc _ ht _
    exact ht.step hc g.2

theorem ordered_of_reach {ok : Server K → Server.Action K → Prop}
    (hr : (server K RTPPort).traced.Reach ok as s) : Ordered as s := by
  refine hr.invariant (I := Ordered) ?_ ?_
  · intro s _
    exact ⟨fun _ ↦ .nil, nofun⟩
  · intro as s a g ho _
    exact ho.step g.2

/-- **A stream is torn down once.**  In every run, what is done to tear a stream down is a prefix of
one call's `teardown`: one call takes it out of the map, and only that call closes its socket and
its hub, once.  The steps of each call follow each other as in the text of `deleteStream`, so these
belong to one execution of it.  What is taken out is what the map has at that port, and
`close(h.done)` never panics.  A handler that finds no entry between two idle points can be left
out: the same run without it leads to the same state. -/
theorem teardown_once
    (hr : (server K RTPPort).traced.Reach (server K RTPPort).traced.free as s) :
    (∀ i, ∃ k port, torn as i <+: teardown k port i) ∧
      (∀ k, (steps as k).IsChain Action.Follows) ∧
      (∀ k port i, s.call k = .delete port i → s.streams port = some i) ∧ s.panicked = false ∧
      ∀ k bs t, (server K RTPPort).traced.Run (server K RTPPort).traced.free s bs t →
        s.call (.handler k) = .idle → t.call (.handler k) = .idle →
        (∀ a ∈ bs, a.caller = some (.handler k) → a.vain = true) →
        (server K RTPPort).traced.Run (server K RTPPort).traced.free s
          (bs.filter fun a ↦ a.caller ≠ some (.handler k)) t := by
  have htorn := torn_of_reach hr
  refine ⟨htorn.trail, (ordered_of_reach hr).chain, htorn.found, htorn.panicked, ?_⟩
  intro k bs t run hs ht hv
  obtain ⟨hlt, hrun⟩ := erase_run htorn.locked run hv
  rwa [erase_of_idle htorn.locked hs, erase_of_idle hlt ht] at hrun

/-- Two handlers delete the same port.  One finds the stream; the other does not, and opens a new
one on that port before the first has closed the hub. -/
theorem teardown_once_reuse :
    ∃ as s, (server Bool 65535).traced.Reach (server Bool 65535).traced.free as s ∧
      s.streams 5004 = some 2 ∧ s.hubDone 1 = true ∧ s.hubDone 2 = false ∧
      (∃ k port, torn as 1 = teardown k port 1) ∧ s.panicked = false := by
  obtain ⟨as, s, hr, hlen, hs, hd, hd'⟩ :=
    (server Bool 65535).traced.exists_of_exec (server Bool 65535).traced.free
      (fun as s ↦ (torn as 1).length = 4 ∧ s.streams 5004 = some 2 ∧ s.hubDone 1 = true ∧
        s.hubDone 2 = false) rfl
      (create .new 65535 65535 0 ++ Server.Action.request true ⟨.post, ""⟩ ::
        create (.handler true) 0 5004 1 ++
        [Server.Action.reply true (.stream 1), .request true ⟨.delete, "5004"⟩,
          .request false ⟨.delete, "5004"⟩, .deleteLock (.handler true) 5004,
          .lookup (.handler true) 5004 1, .delete (.handler true) 5004 1,
          .deleteUnlock (.handler true) (some 1), .deleteLock (.handler false) 5004,
          .lookupNone (.handler false) 5004, .connClose (.handler true) 1,
          .deleteUnlock (.handler false) none, .reply false .noContent,
          .request false ⟨.post, "5004"⟩] ++ create (.handler false) 5004 5004 2 ++
        [Server.Action.hubClose (.handler true) 1, .doneClose (.handler true) 1])
      (by decide +kernel)
  obtain ⟨htrail, -, -, hpanicked, -⟩ := teardown_once hr
  obtain ⟨k, port, hpre⟩ := htrail 1
  exact ⟨as, s, hr, hs, hd, hd', ⟨k, port, hpre.eq_of_length hlen⟩, hpanicked⟩

end ITG.Webrtc
