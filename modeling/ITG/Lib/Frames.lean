import ITG.Lib.Text

/-!
# Incremental decoders

A decoder is called on a buffer and either takes a result off its front or needs more.  It is used
in a loop: what is read is put behind the buffer, and the decoder is called until it needs more or
yields a result that ends the stream.

How the stream is cut into chunks makes no difference (`Decoder.feed_flatten`), because a decoder is
*stable*: the result it takes off a buffer it also takes off any longer one.  What a call has once
been given is never read again, and the loop ends, since each result shortens the buffer.

`Frames` is the special case of frames that end in a delimiter.  That the first delimiter of a
buffer is where it was when more is read (`position_append`) is what makes such decoders stable.
-/

universe u v

namespace ITG.Lib

/-- A decoder of results `ρ` from a buffer of `β`. -/
structure Decoder (β : Type u) (ρ : Type v) where
  /-- One call: the result and what it leaves of the buffer, or `none` if it needs more. -/
  next : List β → Option (ρ × List β)
  /-- The result ends the stream. -/
  ends : ρ → Bool
  shrinks : ∀ {buf r rest}, next buf = some (r, rest) → rest.length < buf.length
  stable : ∀ {buf r rest}, next buf = some (r, rest) →
    ∀ more, next (buf ++ more) = some (r, rest ++ more)

namespace Decoder

variable {β : Type u} {ρ : Type v}

/-- What a loop of calls produced. -/
structure Outcome (β : Type u) (ρ : Type v) where
  results : List ρ
  /-- What it left of the buffer. -/
  rest : List β
  /-- The last result ended the stream. -/
  ended : Bool
deriving DecidableEq

/-- The outcome of a loop that went on after other results. -/
def Outcome.after (rs : List ρ) (o : Outcome β ρ) : Outcome β ρ :=
  { o with results := rs ++ o.results }

variable (D : Decoder β ρ)

/-- Call the decoder until it needs more, or the stream ends. -/
def drain (buf : List β) : Outcome β ρ :=
  match _h : D.next buf with
  | none => ⟨[], buf, false⟩
  | some (r, rest) => if D.ends r then ⟨[r], rest, true⟩ else (drain rest).after [r]
termination_by buf.length
decreasing_by exact D.shrinks _h

/-- Feed chunks, given what is left of the buffer: the outcome, and the chunks that were not read
because the stream ended before them. -/
def feed : List β → List (List β) → Outcome β ρ × List (List β)
  | buf, [] => (⟨[], buf, false⟩, [])
  | buf, chunk :: chunks =>
      let o := D.drain (buf ++ chunk)
      if o.ended then (o, chunks)
      else ((feed o.rest chunks).1.after o.results, (feed o.rest chunks).2)

variable {D} {buf more rest : List β} {r : ρ}

theorem drain_of_none (h : D.next buf = none) : D.drain buf = ⟨[], buf, false⟩ := by
  rw [drain]
  split
  · rfl
  · rename_i h'
    cases h.symm.trans h'

theorem drain_of_ends (h : D.next buf = some (r, rest)) (he : D.ends r = true) :
    D.drain buf = ⟨[r], rest, true⟩ := by
  rw [drain]
  split
  · rename_i h'
    cases h.symm.trans h'
  · rename_i h'
    cases h.symm.trans h'
    exact if_pos he

theorem drain_of_some (h : D.next buf = some (r, rest)) (he : ¬ D.ends r = true) :
    D.drain buf = (D.drain rest).after [r] := by
  rw [drain]
  split
  · rename_i h'
    cases h.symm.trans h'
  · rename_i h'
    cases h.symm.trans h'
    exact if_neg he

/-- The induction over the calls of a loop. -/
theorem drain_induction {P : List β → Outcome β ρ → Prop}
    (none : ∀ buf, D.next buf = none → P buf ⟨[], buf, false⟩)
    (ends : ∀ buf r rest, D.next buf = some (r, rest) → D.ends r = true → P buf ⟨[r], rest, true⟩)
    (some : ∀ buf r rest, D.next buf = some (r, rest) → ¬ D.ends r = true →
      P rest (D.drain rest) → P buf ((D.drain rest).after [r])) (buf : List β) :
    P buf (D.drain buf) := by
  induction hn : buf.length using Nat.strongRecOn generalizing buf with
  | _ n ih =>
      subst hn
      match h : D.next buf with
      | .none =>
          rw [drain_of_none h]
          exact none buf h
      | .some (r, rest) =>
          by_cases he : D.ends r = true
          · rw [drain_of_ends h he]
            exact ends buf r rest h he
          · rw [drain_of_some h he]
            exact some buf r rest h he (ih rest.length (D.shrinks h) rest rfl)

/-- A loop stops where the decoder needs more, unless the stream has ended. -/
theorem next_drain_rest (buf : List β) (h : ¬ (D.drain buf).ended = true) :
    D.next (D.drain buf).rest = none := by
  revert h
  refine D.drain_induction (P := fun _ o ↦ ¬ o.ended = true → D.next o.rest = none) ?_ ?_ ?_ buf
  · intro buf hn _
    exact hn
  · intro buf r rest _ _ h
    exact absurd rfl h
  · intro buf r rest _ _ ih
    exact ih

/-- **A loop may be interrupted**: what it makes of a longer buffer is what it makes of the shorter
one, and then, unless the stream has ended, of what that left with the rest behind it. -/
theorem drain_append (buf more : List β) :
    D.drain (buf ++ more) =
      if (D.drain buf).ended then { D.drain buf with rest := (D.drain buf).rest ++ more }
      else (D.drain ((D.drain buf).rest ++ more)).after (D.drain buf).results := by
  refine D.drain_induction (P := fun buf o ↦ D.drain (buf ++ more) =
    if o.ended then { o with rest := o.rest ++ more }
    else (D.drain (o.rest ++ more)).after o.results) ?_ ?_ ?_ buf
  · intro buf _
    rfl
  · intro buf r rest h he
    exact drain_of_ends (D.stable h more) he
  · intro buf r rest h he ih
    rw [drain_of_some (D.stable h more) he, ih]
    by_cases hend : (D.drain rest).ended = true <;> simp [Outcome.after, hend]

/-- Feeding chunks is draining them together, up to the chunks that are not read. -/
theorem drain_append_flatten {buf : List β} (hbuf : D.next buf = none) (chunks : List (List β)) :
    D.drain (buf ++ chunks.flatten) =
      { (D.feed buf chunks).1 with
        rest := (D.feed buf chunks).1.rest ++ (D.feed buf chunks).2.flatten } := by
  induction chunks generalizing buf with
  | nil =>
      rw [List.flatten_nil, List.append_nil, drain_of_none hbuf]
      simp [feed]
  | cons chunk chunks ih =>
      rw [List.flatten_cons, ← List.append_assoc, drain_append]
      by_cases hend : (D.drain (buf ++ chunk)).ended = true
      · simp only [feed, hend, if_true]
      · rw [if_neg hend, ih (next_drain_rest _ hend)]
        simp [feed, hend, Outcome.after]

/-- **Chunking makes no difference**: a stream that is fed in chunks gives the results that it gives
as a whole, and leaves the same, up to the chunks that are not read. -/
theorem feed_flatten (hnil : D.next [] = none) (chunks : List (List β)) :
    D.feed [] [chunks.flatten] =
      ({ (D.feed [] chunks).1 with
        rest := (D.feed [] chunks).1.rest ++ (D.feed [] chunks).2.flatten }, []) := by
  have h := drain_append_flatten hnil chunks
  rw [List.nil_append] at h
  rw [feed, List.nil_append, h]
  by_cases hend : (D.feed [] chunks).1.ended = true <;> simp [feed, Outcome.after, hend]

/-- Only a stream that has ended leaves chunks unread, and the chunks that are not read are the last
ones. -/
theorem feed_unread (buf : List β) (chunks : List (List β)) :
    (∃ read, chunks = read ++ (D.feed buf chunks).2) ∧
      (¬ (D.feed buf chunks).1.ended = true → (D.feed buf chunks).2 = []) := by
  induction chunks generalizing buf with
  | nil => exact ⟨⟨[], rfl⟩, fun _ ↦ rfl⟩
  | cons chunk chunks ih =>
      by_cases hend : (D.drain (buf ++ chunk)).ended = true
      · simp only [feed, hend, if_true]
        exact ⟨⟨[chunk], rfl⟩, fun h ↦ absurd trivial h⟩
      · simp only [feed, hend]
        obtain ⟨⟨read, hread⟩, hnil⟩ := ih (D.drain (buf ++ chunk)).rest
        exact ⟨⟨chunk :: read, congrArg (chunk :: ·) hread⟩, hnil⟩

end Decoder

/-! ## Delimited frames -/

section Delimited

variable {β : Type u} [DecidableEq β] {d buf more : List β}

/-- The first occurrence is where it was when more is read. -/
theorem position_append {i : ℕ} (h : position d buf = some i) (more : List β) :
    position d (buf ++ more) = some i := by
  induction buf generalizing i with
  | nil =>
      obtain ⟨rfl, rfl⟩ : d = [] ∧ 0 = i := by simpa [position] using h
      cases more with
      | nil => rfl
      | cons x xs => exact position_cons_pos List.nil_prefix
  | cons x xs ih =>
      by_cases hp : d <+: x :: xs
      · rw [position_cons_pos hp] at h
        cases h
        exact position_cons_pos (hp.trans (List.prefix_append (x :: xs) more))
      · rw [position_cons_neg hp] at h
        obtain ⟨j, hj, rfl⟩ := Option.map_eq_some_iff.1 h
        have hlen := position_add_length_le hj
        -- the delimiter ends within what was read, so it does not begin earlier
        have hp' : ¬ d <+: x :: (xs ++ more) := fun hle ↦
          hp (List.prefix_of_prefix_length_le hle (List.prefix_append (x :: xs) more)
            (by simp only [List.length_cons]; omega))
        rw [List.cons_append, position_cons_neg hp', ih hj]
        rfl

/-- The buffer consists of these frames, each up to the first delimiter of what remains, and of what
is left behind the last of them. -/
inductive Frames (d : List β) : List β → List (List β) → List β → Prop where
  | nil (buf : List β) : Frames d buf [] buf
  | cons {buf rest : List β} {i : ℕ} {fs : List (List β)} (h : position d buf = some i)
      (hfs : Frames d (buf.drop (i + d.length)) fs rest) : Frames d buf (buf.take i :: fs) rest

variable {fs : List (List β)} {rest : List β}

/-- A buffer is its first frame, the delimiter, and what is behind it. -/
theorem take_append_drop_of_position {i : ℕ} (h : position d buf = some i) :
    buf.take i ++ (d ++ buf.drop (i + d.length)) = buf := by
  obtain ⟨t, ht⟩ := prefix_of_position h
  have hdrop : buf.drop (i + d.length) = t := by
    rw [← List.drop_drop, ← ht, List.drop_left]
  rw [hdrop, ht, List.take_append_drop]

/-- No element is lost or duplicated. -/
theorem Frames.flatten (h : Frames d buf fs rest) : buf = fs.flatMap (· ++ d) ++ rest := by
  induction h with
  | nil => rfl
  | cons hp _ ih =>
      rw [List.flatMap_cons, List.append_assoc, ← ih, List.append_assoc,
        take_append_drop_of_position hp]

/-- Reading more only adds to what is left. -/
theorem Frames.append (h : Frames d buf fs rest) (more : List β) :
    Frames d (buf ++ more) fs (rest ++ more) := by
  induction h with
  | nil buf => exact .nil _
  | @cons buf rest i fs hp _ ih =>
      have hlen := position_add_length_le hp
      have h := Frames.cons (position_append hp more)
        (by rwa [List.drop_append_of_le_length (by omega)])
      rwa [List.take_append_of_le_length (by omega)] at h

end Delimited

end ITG.Lib
