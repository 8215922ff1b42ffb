import ITG.Lib.Text
import ITG.Webrtc.Server.Routing

/-!
# The ports for viewers

`createAPI` takes the range of UDP ports on which viewers are served from `Config.Ports`.  The text
is parsed for each viewer anew.  Neither `New` nor `Start` looks at it, and `createAPI` ignores the
errors of `strconv.ParseUint`: what cannot be parsed counts as `0`, what is too large as `65535`,
and a text without a dash makes it panic.  `validated_iff` says that only a text which is a range is
safe.

Of pion there is what `createAPI` sets in the `SettingEngine`; the codecs and interceptors that it
registers are the same for every configuration.
-/

universe u

namespace ITG.Webrtc

open ITG.Lib Server

/-- The fields of `Config` that `New` itself, `createAPI` and `buildConfig` read. -/
structure Config where
  IP : String
  RTPPort : ℤ
  ports : String
  ICEServers : String

/-! ## Parsing a bound -/

/-- The errors of `strconv.ParseUint`. -/
inductive NumError where
  | errSyntax
  | errRange
deriving DecidableEq, Repr

/-- The loop of `ParseUint` over the digits, with the number read so far. -/
def parseDigits (maxVal : ℕ) : ℕ → List Char → ℕ × Option NumError
  | n, [] => (n, none)
  | n, c :: cs =>
      if c.isDigit then
        let n₁ := 10 * n + (c.toNat - '0'.toNat)
        if n₁ ≤ maxVal then parseDigits maxVal n₁ cs else (maxVal, some .errRange)
      else (0, some .errSyntax)

/-- `strconv.ParseUint` with base 10, for numbers up to `maxVal`. -/
def parseUint (maxVal : ℕ) (s : List Char) : ℕ × Option NumError :=
  if s = [] then (0, some .errSyntax) else parseDigits maxVal 0 s

theorem le_ofDigitChars (n : ℕ) (cs : List Char) : n ≤ Nat.ofDigitChars 10 cs n := by
  rw [Nat.ofDigitChars_eq_ofDigitChars_zero]
  exact Nat.le_add_right_of_le (Nat.le_mul_of_pos_left n (Nat.pow_pos (by decide)))

theorem parseDigits_eq {maxVal n : ℕ} {cs : List Char} (hcs : ∀ c ∈ cs, c.isDigit = true)
    (hle : Nat.ofDigitChars 10 cs n ≤ maxVal) :
    parseDigits maxVal n cs = (Nat.ofDigitChars 10 cs n, none) := by
  induction cs generalizing n with
  | nil => simp [parseDigits]
  | cons c cs ih =>
      obtain ⟨hc, hcs⟩ := List.forall_mem_cons.1 hcs
      rw [Nat.ofDigitChars_cons] at hle
      rw [parseDigits, if_pos hc, if_pos ((le_ofDigitChars _ cs).trans hle), ih hcs hle,
        Nat.ofDigitChars_cons]

/-- A numeral in range is parsed. -/
theorem parseUint_of_digits {maxVal n : ℕ} {cs : List Char} (h : digits cs = some n)
    (hle : n ≤ maxVal) : parseUint maxVal cs = (n, none) := by
  unfold digits at h
  split at h
  · rename_i hcs
    cases h
    rw [parseUint, if_neg hcs.1, parseDigits_eq (List.all_eq_true.1 hcs.2) hle]
  · cases h

/-! ## The settings -/

/-- What is set in a `webrtc.SettingEngine`. -/
structure SettingEngine where
  NAT1To1IPs : List String
  ephemeralUDP : UInt16 × UInt16
deriving DecidableEq

namespace SettingEngine

/-- `webrtc.SettingEngine{}`. -/
def zero : SettingEngine := ⟨[], 0, 0⟩

/-- `SetNAT1To1IPs`. -/
def setNAT1To1IPs (se : SettingEngine) (ips : List String) : SettingEngine :=
  { se with NAT1To1IPs := ips }

/-- `SetEphemeralUDPPortRange`, which leaves a range alone that ends before it begins. -/
def setEphemeralUDPPortRange (se : SettingEngine) (portMin portMax : UInt16) : SettingEngine :=
  if portMax < portMin then se else { se with ephemeralUDP := (portMin, portMax) }

end SettingEngine

/-- `createAPI`: the settings of the API, or `none` if it panics. -/
def createAPI (cfg : Config) : Option SettingEngine :=
  let se :=
    if cfg.IP ≠ "none" ∧ cfg.ICEServers = "none" then SettingEngine.zero.setNAT1To1IPs [cfg.IP]
    else .zero
  match splitTwo '-' cfg.ports.toList with
  | [low, high] =>
      some (se.setEphemeralUDPPortRange (.ofNat (parseUint 65535 low).1)
        (.ofNat (parseUint 65535 high).1))
  -- `pr[1]` is out of range
  | _ => none

/-- The text is the range from `a` to `b`. -/
structure IsRange (ports : String) (a b : ℕ) : Prop where
  split : ∃ low high, ports.toList = low ++ '-' :: high ∧ digits low = some a ∧ digits high = some b
  pos : 0 < a
  le : a ≤ b
  lt : b ≤ 65535

theorem notMem_of_digits {cs : List Char} {n : ℕ} (h : digits cs = some n) : '-' ∉ cs := by
  unfold digits at h
  split at h
  · rename_i hcs
    intro hm
    exact absurd (List.all_eq_true.1 hcs.2 _ hm) (by decide)
  · cases h

/-- A range is set as it is. -/
theorem createAPI_of_isRange {cfg : Config} {a b : ℕ} (h : IsRange cfg.ports a b) :
    ∃ se, createAPI cfg = some se ∧ se.ephemeralUDP.1.toNat = a ∧ se.ephemeralUDP.2.toNat = b := by
  obtain ⟨low, high, hports, hlow, hhigh⟩ := h.split
  have hb := h.lt
  have ha := h.le.trans hb
  have hanat : (UInt16.ofNat a).toNat = a :=
    UInt16.toNat_ofNat_of_lt' (by simp [UInt16.size]; omega)
  have hbnat : (UInt16.ofNat b).toNat = b :=
    UInt16.toNat_ofNat_of_lt' (by simp [UInt16.size]; omega)
  have hset (se : SettingEngine) : se.setEphemeralUDPPortRange (.ofNat a) (.ofNat b) =
      { se with ephemeralUDP := (.ofNat a, .ofNat b) } := by
    apply if_neg
    rw [UInt16.lt_iff_toNat_lt, hanat, hbnat]
    exact Nat.not_lt_of_le h.le
  obtain ⟨se, hse⟩ : ∃ se : SettingEngine,
      createAPI cfg = some { se with ephemeralUDP := (.ofNat a, .ofNat b) } := by
    rw [createAPI, hports, splitTwo_append_cons (notMem_of_digits hlow)]
    dsimp only
    rw [parseUint_of_digits hlow ha, parseUint_of_digits hhigh hb]
    exact ⟨_, congrArg some (hset _)⟩
  exact ⟨_, hse, hanat, hbnat⟩

/-- A text without a dash makes `createAPI` panic, and no other does. -/
theorem createAPI_eq_none_iff {cfg : Config} : createAPI cfg = none ↔ '-' ∉ cfg.ports.toList := by
  by_cases h : '-' ∈ cfg.ports.toList
  · rw [createAPI, splitTwo, if_pos h]
    simp [h]
  · rw [createAPI, splitTwo_of_notMem h]
    simp [h]

/-! ## Start-up -/

section Startup

variable (K : Type u) [DecidableEq K]

/-- Start-up reports an error for every configuration with these ports: `New` does not succeed.
`Start` reports none. -/
def Refused (ports : String) : Prop :=
  ∀ cfg : Config, cfg.ports = ports → ∀ as s, (server K cfg.RTPPort).traced.Reach Sound as s →
    (s.call .new).succeeded = false

/-- The text is a range, and each call of `createAPI` sets it. -/
def Respected (ports : String) : Prop :=
  ∃ a b, IsRange ports a b ∧ ∀ cfg : Config, cfg.ports = ports →
    ∃ se, createAPI cfg = some se ∧ se.ephemeralUDP.1.toNat = a ∧ se.ephemeralUDP.2.toNat = b

/-- `New` succeeds whatever the ports are. -/
theorem not_refused (ports : String) : ¬ Refused K ports := by
  intro h
  obtain ⟨s, hr, hs⟩ := (server K 65535).exists_of_schedule Sound
    (fun s ↦ (s.call .new).succeeded = true) rfl (create .new 65535 65535 0) rfl
  have hf := h ⟨"none", 65535, ports, "none"⟩ rfl _ s hr
  rw [hs] at hf
  cases hf

/-- **Which ports are validated.**  A text for `Config.Ports` is a range that each call of
`createAPI` sets, or is refused at start-up, if and only if it is a range. -/
theorem validated_iff (ports : String) :
    Respected ports ∨ Refused K ports ↔ ∃ a b, IsRange ports a b := by
  constructor
  · rintro (⟨a, b, h, -⟩ | h)
    · exact ⟨a, b, h⟩
    · exact absurd h (not_refused K ports)
  · rintro ⟨a, b, h⟩
    refine .inl ⟨a, b, h, ?_⟩
    rintro cfg rfl
    exact createAPI_of_isRange h

end Startup

/-- Without a dash, each viewer makes `createAPI` panic; a bound that is too large is replaced by
another one, and the rest by none.  `New` succeeds all the same. -/
theorem unvalidated :
    createAPI ⟨"none", 65535, "20000", "none"⟩ = none ∧
      createAPI ⟨"none", 65535, "20000-99999", "none"⟩ = some ⟨[], 20000, 65535⟩ ∧
      createAPI ⟨"none", 65535, "20000-", "none"⟩ = some ⟨[], 0, 0⟩ ∧
      ¬ (Respected "20000" ∨ Refused Unit "20000") := by
  refine ⟨by decide +kernel, by decide +kernel, by decide +kernel, ?_⟩
  rintro (⟨a, b, h, hset⟩ | h)
  · obtain ⟨se, hse, -⟩ := hset ⟨"none", 65535, "20000", "none"⟩ rfl
    rw [createAPI_eq_none_iff.2 (by decide +kernel)] at hse
    cases hse
  · exact not_refused Unit _ h

/-! ## The other options -/

/-- A `webrtc.ICEServer`. -/
structure ICEServer where
  URLs : List String
deriving DecidableEq

/-- `buildConfig`: the ICE servers of the configuration. -/
def buildConfig (cfg : Config) : List ICEServer :=
  if cfg.ICEServers = "none" then []
  else (cfg.ICEServers.toList.splitOn ',').map fun url ↦ ⟨[.ofList url]⟩

/-- The servers are what the option has between its commas. -/
theorem intercalate_buildConfig {cfg : Config} (h : cfg.ICEServers ≠ "none") :
    [','].intercalate ((buildConfig cfg).flatMap fun server ↦ server.URLs.map String.toList) =
      cfg.ICEServers.toList := by
  have hurls : (buildConfig cfg).flatMap (fun server ↦ server.URLs.map String.toList) =
      cfg.ICEServers.toList.splitOn ',' := by
    simp [buildConfig, h, List.flatMap_map]
  rw [hurls, List.intercalate_splitOn]

/-- An address is given to pion only where there are no ICE servers. -/
theorem buildConfig_of_NAT1To1IPs {cfg : Config} {se : SettingEngine} (h : createAPI cfg = some se)
    (hips : se.NAT1To1IPs ≠ []) : buildConfig cfg = [] := by
  have hset (se : SettingEngine) (low high : UInt16) :
      (se.setEphemeralUDPPortRange low high).NAT1To1IPs = se.NAT1To1IPs := by
    unfold SettingEngine.setEphemeralUDPPortRange
    split <;> rfl
  by_cases hice : cfg.ICEServers = "none"
  · exact if_pos hice
  · refine absurd ?_ hips
    rw [createAPI, if_neg fun hc ↦ hice hc.2] at h
    split at h
    · cases h
      rw [hset]
      rfl
    · cases h

/-- The options of `main` where the command line has none. -/
def defaults : Config := ⟨"none", 65535, "20000-20500", "none"⟩

/-- They are valid. -/
theorem isRange_defaults : IsRange defaults.ports 20000 20500 where
  split := ⟨"20000".toList, "20500".toList, by decide +kernel, by decide +kernel, by decide +kernel⟩
  pos := by decide
  le := by decide
  lt := by decide

end ITG.Webrtc
