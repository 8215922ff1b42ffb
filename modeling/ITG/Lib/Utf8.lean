import Mathlib.Tactic.Common

/-!
# Lossy UTF-8 decoding

`fromUtf8Lossy` turns any list of bytes into characters, as `String::from_utf8_lossy` does: an
ill-formed part is replaced by one U+FFFD, where a part is a maximal prefix of some well-formed
sequence, or a single byte if there is none.

The decoder is a machine that reads one byte at a time.  Between sequences it has nothing
pending; inside one it knows how many bytes are still missing and in which range the next of
them must lie.  The ranges are those of the table of well-formed byte sequences, so overlong
forms, surrogates and code points above U+10FFFF are refused at their second byte.

Characters are encoded by `String.utf8EncodeChar`.  `fromUtf8Lossy_encode` is the round trip, and
`ascii_mem_encode` says that an ASCII byte occurs in an encoding only as that character.
-/

namespace ITG.Lib.Utf8

/-- The bytes of a text. -/
def encode (cs : List Char) : List UInt8 := cs.flatMap String.utf8EncodeChar

@[simp] theorem encode_nil : encode [] = [] := rfl

@[simp] theorem encode_cons (c : Char) (cs : List Char) :
    encode (c :: cs) = String.utf8EncodeChar c ++ encode cs := rfl

@[simp] theorem encode_append (cs ds : List Char) :
    encode (cs ++ ds) = encode cs ++ encode ds := List.flatMap_append

/-- A sequence that has begun. -/
structure Pending where
  /-- How many bytes are missing after the next one. -/
  more : ℕ
  /-- The least next byte. -/
  lo : ℕ
  /-- The greatest next byte. -/
  hi : ℕ
  /-- The code point so far. -/
  acc : ℕ
deriving DecidableEq, Repr

/-- Read a byte between sequences: the characters it produces and what it leaves pending. -/
def lead (b : UInt8) : List Char × Option Pending :=
  let n := b.toNat
  if n < 0x80 then ([.ofNat n], none)
  else if n < 0xC2 then (['\uFFFD'], none)
  else if n < 0xE0 then ([], some ⟨0, 0x80, 0xBF, n % 0x20⟩)
  else if n = 0xE0 then ([], some ⟨1, 0xA0, 0xBF, n % 0x10⟩)
  else if n = 0xED then ([], some ⟨1, 0x80, 0x9F, n % 0x10⟩)
  else if n < 0xF0 then ([], some ⟨1, 0x80, 0xBF, n % 0x10⟩)
  else if n = 0xF0 then ([], some ⟨2, 0x90, 0xBF, n % 0x08⟩)
  else if n < 0xF4 then ([], some ⟨2, 0x80, 0xBF, n % 0x08⟩)
  else if n = 0xF4 then ([], some ⟨2, 0x80, 0x8F, n % 0x08⟩)
  else (['\uFFFD'], none)

/-- Read a byte.  A byte that does not continue the pending sequence ends it, and is read again
as the first of the next. -/
def step : Option Pending → UInt8 → List Char × Option Pending
  | none, b => lead b
  | some p, b =>
      if p.lo ≤ b.toNat ∧ b.toNat ≤ p.hi then
        match p.more with
        | 0 => ([.ofNat (p.acc * 0x40 + b.toNat % 0x40)], none)
        | k + 1 => ([], some ⟨k, 0x80, 0xBF, p.acc * 0x40 + b.toNat % 0x40⟩)
      else ('\uFFFD' :: (lead b).1, (lead b).2)

/-- Read all bytes; a sequence that is pending at the end is replaced. -/
def run : Option Pending → List UInt8 → List Char
  | none, [] => []
  | some _, [] => ['\uFFFD']
  | p, b :: bs => (step p b).1 ++ run (step p b).2 bs

/-- `String::from_utf8_lossy`. -/
def fromUtf8Lossy (bs : List UInt8) : List Char := run none bs

theorem run_cons (p : Option Pending) (b : UInt8) (bs : List UInt8) :
    run p (b :: bs) = (step p b).1 ++ run (step p b).2 bs := by
  cases p <;> rfl

/-! ## The round trip -/

/-- A code point is not a surrogate and is below 0x110000. -/
theorem toNat_valid (c : Char) : c.toNat < 0xD800 ∨ 0xDFFF < c.toNat ∧ c.toNat < 0x110000 :=
  c.valid

theorem toNat_ofNat_of_lt {n : ℕ} (h : n < 256) : (UInt8.ofNat n).toNat = n := by
  simp [Nat.mod_eq_of_lt h]

/-- The last byte of a sequence completes its character. -/
theorem step_last {lo hi acc v : ℕ} (hlo : lo ≤ v % 0x40 + 0x80) (hhi : v % 0x40 + 0x80 ≤ hi) :
    step (some ⟨0, lo, hi, acc⟩) (.ofNat (v % 0x40 + 0x80)) =
      ([.ofNat (acc * 0x40 + v % 0x40)], none) := by
  have hb : (UInt8.ofNat (v % 0x40 + 0x80)).toNat = v % 0x40 + 0x80 :=
    toNat_ofNat_of_lt (by omega)
  simp only [step, hb]
  rw [if_pos ⟨hlo, hhi⟩, show (v % 0x40 + 0x80) % 0x40 = v % 0x40 by omega]

/-- Any earlier byte of it is collected. -/
theorem step_more {k lo hi acc v : ℕ} (hlo : lo ≤ v % 0x40 + 0x80)
    (hhi : v % 0x40 + 0x80 ≤ hi) :
    step (some ⟨k + 1, lo, hi, acc⟩) (.ofNat (v % 0x40 + 0x80)) =
      ([], some ⟨k, 0x80, 0xBF, acc * 0x40 + v % 0x40⟩) := by
  have hb : (UInt8.ofNat (v % 0x40 + 0x80)).toNat = v % 0x40 + 0x80 :=
    toNat_ofNat_of_lt (by omega)
  simp only [step, hb]
  rw [if_pos ⟨hlo, hhi⟩, show (v % 0x40 + 0x80) % 0x40 = v % 0x40 by omega]

theorem lead_one {n : ℕ} (h : n ≤ 0x7F) : lead (.ofNat n) = ([.ofNat n], none) := by
  have hb : (UInt8.ofNat n).toNat = n := toNat_ofNat_of_lt (by omega)
  simp only [lead, hb]
  rw [if_pos (by omega)]

theorem lead_two {n : ℕ} (h₁ : 0x7F < n) (h₂ : n ≤ 0x7FF) :
    lead (.ofNat (n / 64 % 0x20 + 0xC0)) = ([], some ⟨0, 0x80, 0xBF, n / 64⟩) := by
  have hb : (UInt8.ofNat (n / 64 % 0x20 + 0xC0)).toNat = n / 64 % 0x20 + 0xC0 :=
    toNat_ofNat_of_lt (by omega)
  simp only [lead, hb]
  rw [if_neg (by omega), if_neg (by omega), if_pos (by omega),
    show (n / 64 % 0x20 + 0xC0) % 0x20 = n / 64 by omega]

/-- The first of three bytes.  The range of the second keeps out overlong forms after `E0` and
surrogates after `ED`; a character is neither. -/
theorem lead_three {n : ℕ} (h₁ : 0x7FF < n) (h₂ : n ≤ 0xFFFF)
    (hv : n < 0xD800 ∨ 0xDFFF < n) :
    ∃ lo hi, lead (.ofNat (n / 4096 % 0x10 + 0xE0)) = ([], some ⟨1, lo, hi, n / 4096⟩) ∧
      lo ≤ n / 64 % 0x40 + 0x80 ∧ n / 64 % 0x40 + 0x80 ≤ hi := by
  have hb : (UInt8.ofNat (n / 4096 % 0x10 + 0xE0)).toNat = n / 4096 % 0x10 + 0xE0 :=
    toNat_ofNat_of_lt (by omega)
  simp only [lead, hb]
  rw [if_neg (by omega), if_neg (by omega), if_neg (by omega),
    show (n / 4096 % 0x10 + 0xE0) % 0x10 = n / 4096 by omega]
  split_ifs
  · exact ⟨0xA0, 0xBF, rfl, by omega, by omega⟩
  · exact ⟨0x80, 0x9F, rfl, by omega, by omega⟩
  · exact ⟨0x80, 0xBF, rfl, by omega, by omega⟩
  all_goals omega

/-- The first of four bytes.  The range of the second keeps out overlong forms after `F0` and
what is above U+10FFFF after `F4`. -/
theorem lead_four {n : ℕ} (h₁ : 0xFFFF < n) (h₂ : n < 0x110000) :
    ∃ lo hi, lead (.ofNat (n / 262144 % 0x08 + 0xF0)) = ([], some ⟨2, lo, hi, n / 262144⟩) ∧
      lo ≤ n / 4096 % 0x40 + 0x80 ∧ n / 4096 % 0x40 + 0x80 ≤ hi := by
  have hb : (UInt8.ofNat (n / 262144 % 0x08 + 0xF0)).toNat = n / 262144 % 0x08 + 0xF0 :=
    toNat_ofNat_of_lt (by omega)
  simp only [lead, hb]
  rw [if_neg (by omega), if_neg (by omega), if_neg (by omega), if_neg (by omega),
    if_neg (by omega), if_neg (by omega),
    show (n / 262144 % 0x08 + 0xF0) % 0x08 = n / 262144 by omega]
  split_ifs
  · exact ⟨0x90, 0xBF, rfl, by omega, by omega⟩
  · exact ⟨0x80, 0xBF, rfl, by omega, by omega⟩
  · exact ⟨0x80, 0x8F, rfl, by omega, by omega⟩
  · omega

/-- The bytes of a character are read as that character. -/
theorem run_utf8EncodeChar (c : Char) (bs : List UInt8) :
    run none (String.utf8EncodeChar c ++ bs) = c :: run none bs := by
  have hv := toNat_valid c
  have hc : Char.ofNat c.toNat = c := Char.ofNat_toNat c
  generalize hn : c.toNat = n at hv hc
  have he : c.val.toNat = n := hn
  simp only [String.utf8EncodeChar, he]
  split_ifs with h₁ h₂ h₃
  · simp only [List.cons_append, List.nil_append, run_cons, step, lead_one h₁, hc]
  · simp only [List.cons_append, List.nil_append, run_cons]
    rw [show step none _ = _ from lead_two (by omega) h₂,
      step_last (v := n) (by omega) (by omega), show n / 64 * 0x40 + n % 0x40 = n by omega, hc]
    rfl
  · obtain ⟨lo, hi, hl, hlo, hhi⟩ := lead_three (by omega) h₃ (by omega)
    simp only [List.cons_append, List.nil_append, run_cons]
    rw [show step none _ = _ from hl, step_more (v := n / 64) hlo hhi,
      step_last (v := n) (by omega) (by omega),
      show (n / 4096 * 0x40 + n / 64 % 0x40) * 0x40 + n % 0x40 = n by omega, hc]
    rfl
  · obtain ⟨lo, hi, hl, hlo, hhi⟩ := lead_four (n := n) (by omega) (by omega)
    simp only [List.cons_append, List.nil_append, run_cons]
    rw [show step none _ = _ from hl, step_more (v := n / 4096) hlo hhi,
      step_more (v := n / 64) (by omega) (by omega),
      step_last (v := n) (by omega) (by omega),
      show ((n / 262144 * 0x40 + n / 4096 % 0x40) * 0x40 + n / 64 % 0x40) * 0x40 + n % 0x40 = n
        by omega, hc]
    rfl

/-- **The round trip**: decoding what was encoded gives the text back. -/
theorem fromUtf8Lossy_encode (cs : List Char) : fromUtf8Lossy (encode cs) = cs := by
  induction cs with
  | nil => rfl
  | cons c cs ih =>
      rw [fromUtf8Lossy, encode_cons, run_utf8EncodeChar]
      exact congrArg (c :: ·) ih

/-! ## ASCII bytes -/

theorem utf8EncodeChar_ascii {c : Char} (h : c.toNat < 0x80) :
    String.utf8EncodeChar c = [.ofNat c.toNat] := by
  rw [String.utf8EncodeChar]
  exact if_pos (Nat.le_of_lt_succ h)

/-- Outside ASCII all bytes have their highest bit set. -/
theorem le_of_mem_utf8EncodeChar {c : Char} (h : 0x80 ≤ c.toNat) {b : UInt8}
    (hb : b ∈ String.utf8EncodeChar c) : 0x80 ≤ b.toNat := by
  have key (n : ℕ) (hn : 0x80 ≤ n) (hn' : n < 256) : 0x80 ≤ (UInt8.ofNat n).toNat := by
    rwa [toNat_ofNat_of_lt hn']
  have he : ¬ c.val.toNat ≤ 0x7F := Nat.not_le.2 h
  simp only [String.utf8EncodeChar, if_neg he] at hb
  split_ifs at hb <;> simp only [List.mem_cons, List.not_mem_nil, or_false] at hb
  · rcases hb with rfl | rfl <;> exact key _ (by omega) (by omega)
  · rcases hb with rfl | rfl | rfl <;> exact key _ (by omega) (by omega)
  · rcases hb with rfl | rfl | rfl | rfl <;> exact key _ (by omega) (by omega)

/-- An ASCII byte among the bytes of a character is that character. -/
theorem ascii_mem_utf8EncodeChar {c d : Char} (hd : d.toNat < 0x80)
    (h : .ofNat d.toNat ∈ String.utf8EncodeChar c) : c = d := by
  have hb : (UInt8.ofNat d.toNat).toNat = d.toNat := toNat_ofNat_of_lt (by omega)
  rcases Nat.lt_or_ge c.toNat 0x80 with hc | hc
  · rw [utf8EncodeChar_ascii hc, List.mem_singleton] at h
    have he := congrArg UInt8.toNat h
    rw [hb, toNat_ofNat_of_lt (by omega)] at he
    rw [← Char.ofNat_toNat c, ← he, Char.ofNat_toNat]
  · have := le_of_mem_utf8EncodeChar hc h
    omega

/-- An ASCII byte occurs in an encoding only as that character. -/
theorem ascii_mem_encode {d : Char} (hd : d.toNat < 0x80) {cs : List Char}
    (h : .ofNat d.toNat ∈ encode cs) : d ∈ cs := by
  obtain ⟨c, hc, hb⟩ := List.mem_flatMap.1 h
  exact ascii_mem_utf8EncodeChar hd hb ▸ hc

/-- No bytes encode a character. -/
theorem utf8EncodeChar_ne_nil (c : Char) : String.utf8EncodeChar c ≠ [] := by
  simp

end ITG.Lib.Utf8
