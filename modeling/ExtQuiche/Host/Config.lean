import ExtQuiche.Base.Radix
import Mathlib.Algebra.Group.Nat.Defs

/-!
# Settings and addresses from PHP

Library `Host`. The accessors of `src/config.rs` that do more than copy a field: the stateless
reset token, which PHP sees as hexadecimal text (`src/config.rs:357–369`), and the two
timeouts, which it sees in milliseconds (`src/config.rs:117–123,261–267`). Then the text of a
socket address, `src/conn.rs:127–162`.
-/

namespace ExtQuiche.Host
open ExtQuiche.Base

/-- `std::time::Duration`: whole seconds and the nanoseconds of the next one. -/
structure Duration where
  secs : UInt64
  nanos : Nat
  nanos_lt : nanos < 1000000000

private theorem nanos_of_millis (ms : UInt64) : ms.toNat % 1000 * 1000000 < 1000000000 := by omega

namespace Duration

/-- `Duration::from_millis`. -/
def fromMillis (ms : UInt64) : Duration where
  secs := .ofNat (ms.toNat / 1000)
  nanos := ms.toNat % 1000 * 1000000
  nanos_lt := nanos_of_millis ms

/-- `Duration::as_millis`, a `u128`. -/
def asMillis (d : Duration) : Nat := d.secs.toNat * 1000 + d.nanos / 1000000

end Duration

/-- The fields of `QuicSettings` that need a conversion. -/
structure QuicSettings where
  maxIdleTimeout : Option Duration
  handshakeTimeout : Option Duration
  statelessResetToken : Option (BitVec 128)

/-- `src/config.rs:7–11`. -/
structure Config where
  inner : QuicSettings
  certPath : String
  keyPath : String

/-- `d.as_millis() as u64`, `src/config.rs:118,262`. -/
def millisOf (d : Duration) : UInt64 := .ofNat d.asMillis

/-- `u128::from_str_radix(&token_str, 16)`, `src/config.rs:363`. -/
def parseToken (token : String) : Option (BitVec 128) :=
  (fromStrRadix 16 (2 ^ 128) token.toList).map (BitVec.ofNat 128)

/-- `format!("{:x}", t)`, `src/config.rs:358`. -/
def formatToken (t : BitVec 128) : String := .ofList (Nat.toDigits 16 t.toNat)

namespace Config

/-- `src/config.rs:117–119`. -/
def getMaxIdleTimeout (c : Config) : Option UInt64 := c.inner.maxIdleTimeout.map millisOf

/-- `src/config.rs:121–123`. -/
def setMaxIdleTimeout (c : Config) (timeout : Option UInt64) : Config :=
  { c with inner.maxIdleTimeout := timeout.map .fromMillis }

/-- `src/config.rs:261–263`. -/
def getHandshakeTimeout (c : Config) : Option UInt64 := c.inner.handshakeTimeout.map millisOf

/-- `src/config.rs:265–267`. -/
def setHandshakeTimeout (c : Config) (timeout : Option UInt64) : Config :=
  { c with inner.handshakeTimeout := timeout.map .fromMillis }

/-- `src/config.rs:357–359`. -/
def getStatelessResetToken (c : Config) : Option String :=
  c.inner.statelessResetToken.map formatToken

/-- `src/config.rs:361–369`; a text that is no token changes nothing. -/
def setStatelessResetToken (c : Config) (token : Option String) : Config :=
  match token with
  | some tokenStr =>
    match parseToken tokenStr with
    | some t => { c with inner.statelessResetToken := some t }
    | none => c
  | none => { c with inner.statelessResetToken := none }

end Config

/-- A hexadecimal numeral: some leading zeros and the significant digits, without the sign. -/
structure Hexadecimal (cs : List Char) (zeros : Nat) (ds : List Nat) : Prop where
  spelled : Spells 16 cs (List.replicate zeros 0 ++ ds)
  nonempty : cs ≠ []
  significant : ∀ d ∈ ds.head?, d ≠ 0

/-- What `format!("{:x}", ..)` writes for the significant digits. -/
def hexText (ds : List Nat) : String := .ofList (if ds = [] then ['0'] else ds.map Nat.digitChar)

section

variable {cs : List Char} {zeros : Nat} {ds : List Nat}

private theorem spells_lt {ds : List Nat} (h : Spells 16 cs ds) : ∀ d ∈ ds, d < 16 := by
  intro d hd
  have hmem : some d ∈ cs.map (toDigit 16) := by
    rw [h]
    exact List.mem_map_of_mem hd
  obtain ⟨c, -, hc⟩ := List.mem_map.mp hmem
  exact toDigit_lt hc

private theorem valueFrom_zeros (zeros : Nat) (ds : List Nat) :
    valueFrom 16 0 (List.replicate zeros 0 ++ ds) = valueFrom 16 0 ds := by
  induction zeros with
  | zero => rfl
  | succ n ih => rw [List.replicate_succ, List.cons_append, valueFrom_zero_cons, ih]

/-- The value of a numeral is written as its significant digits, in lower case. -/
private theorem toDigits_value (h : Hexadecimal cs zeros ds) :
    Nat.toDigits 16 (valueFrom 16 0 ds) = if ds = [] then ['0'] else ds.map Nat.digitChar := by
  cases ds with
  | nil => rfl
  | cons d ds =>
    have hlt := spells_lt h.spelled
    have hd : d < 16 := hlt d (by simp)
    have hpos : 0 < d := Nat.pos_of_ne_zero (h.significant d rfl)
    have hfirst : valueFrom 16 0 (d :: ds) = valueFrom 16 d ds := by simp [valueFrom]
    rw [hfirst, toDigits_valueFrom (by decide) hpos fun d' hd' ↦ hlt d' (by simp [hd']),
      Nat.toDigits_of_lt_base hd]
    rfl

/-- 128 bits are 32 significant digits. -/
private theorem value_lt_iff (h : Hexadecimal cs zeros ds) :
    valueFrom 16 0 ds < 2 ^ 128 ↔ ds.length ≤ 32 := by
  have hlen := Nat.length_toDigits_le_iff (b := 16) (n := valueFrom 16 0 ds) (k := 32)
    (by decide) (by decide)
  rw [toDigits_value h] at hlen
  have hpow : (2 : Nat) ^ 128 = 16 ^ 32 := by decide
  rw [hpow, ← hlen]
  cases ds with
  | nil => simp
  | cons d ds => simp

/-- Every spelling has its leading zeros and its significant digits. -/
private theorem exists_hexadecimal {ds : List Nat} (h : Spells 16 cs ds) (hne : cs ≠ []) :
    ∃ zeros ds', ds = List.replicate zeros 0 ++ ds' ∧ Hexadecimal cs zeros ds' := by
  have hsplit : ∃ zeros ds', ds = List.replicate zeros 0 ++ ds' ∧ ∀ d ∈ ds'.head?, d ≠ 0 := by
    clear h
    induction ds with
    | nil => exact ⟨0, [], rfl, by simp⟩
    | cons d ds ih =>
      by_cases hd : d = 0
      · obtain ⟨zeros, ds', hds, hhead⟩ := ih
        exact ⟨zeros + 1, ds', by rw [hds, hd]; rfl, hhead⟩
      · exact ⟨0, d :: ds, rfl, fun d' hd' ↦ by cases hd'; exact hd⟩
  obtain ⟨zeros, ds', rfl, hhead⟩ := hsplit
  exact ⟨zeros, ds', rfl, h, hne, hhead⟩

/-- A text is a token exactly where it is a numeral, after an optional plus sign, of at most
32 significant digits. -/
private theorem parseToken_eq_some_iff {s : String} {t : BitVec 128} :
    parseToken s = some t ↔ ∃ cs zeros ds, (s.toList = cs ∨ s.toList = '+' :: cs) ∧
      Hexadecimal cs zeros ds ∧ ds.length ≤ 32 ∧ formatToken t = hexText ds := by
  have hwrite : ∀ {cs zeros ds} {t : BitVec 128}, Hexadecimal cs zeros ds →
      (formatToken t = hexText ds ↔ t.toNat = valueFrom 16 0 ds) := by
    intro cs zeros ds t h
    rw [formatToken, hexText, ← toDigits_value h]
    constructor
    · intro heq
      have hlists : Nat.toDigits 16 t.toNat = Nat.toDigits 16 (valueFrom 16 0 ds) := by
        simpa using congrArg String.toList heq
      exact toDigits_injective (by decide) (by decide) hlists
    · intro heq
      rw [heq]
  rw [parseToken, Option.map_eq_some_iff]
  constructor
  · rintro ⟨n, hn, rfl⟩
    obtain ⟨cs, ds, hs, hne, hspells, rfl, hlt⟩ :=
      (fromStrRadix_eq_some_iff (by decide) (by decide) (by decide)).mp hn
    obtain ⟨zeros, ds, rfl, hhex⟩ := exists_hexadecimal hspells hne
    rw [valueFrom_zeros] at hlt ⊢
    refine ⟨cs, zeros, ds, hs, hhex, (value_lt_iff hhex).mp hlt, (hwrite hhex).mpr ?_⟩
    rw [BitVec.toNat_ofNat, Nat.mod_eq_of_lt hlt]
  · rintro ⟨cs, zeros, ds, hs, hhex, hlen, ht⟩
    have hvalue := (hwrite hhex).mp ht
    refine ⟨t.toNat, ?_, by simp⟩
    refine (fromStrRadix_eq_some_iff (by decide) (by decide) (by decide)).mpr
      ⟨cs, _, hs, hhex.nonempty, hhex.spelled, ?_, t.isLt⟩
    rw [valueFrom_zeros, hvalue]

/-- Milliseconds of PHP survive the conversion to a duration and back. -/
private theorem millisOf_fromMillis (ms : UInt64) : millisOf (.fromMillis ms) = ms := by
  have hlt : ms.toNat < 2 ^ 64 := ms.toNat_lt
  have hsecs : (UInt64.ofNat (ms.toNat / 1000)).toNat = ms.toNat / 1000 := by
    rw [UInt64.toNat_ofNat', Nat.mod_eq_of_lt (by omega)]
  have hmillis : (Duration.fromMillis ms).asMillis = ms.toNat := by
    simp only [Duration.asMillis, Duration.fromMillis, hsecs]
    omega
  rw [millisOf, hmillis, UInt64.ofNat_toNat]

end

/-- What PHP reads of the converted settings after it has set them. -/
structure ReadsBack (c : Config) : Prop where
  timeouts : ∀ idle handshake,
    ((c.setMaxIdleTimeout idle).setHandshakeTimeout handshake).getMaxIdleTimeout = idle ∧
      ((c.setMaxIdleTimeout idle).setHandshakeTimeout handshake).getHandshakeTimeout = handshake
  token : ∀ s cs zeros ds, (s.toList = cs ∨ s.toList = '+' :: cs) → Hexadecimal cs zeros ds →
    ds.length ≤ 32 → (c.setStatelessResetToken (some s)).getStatelessResetToken = some (hexText ds)
  refused : ∀ s, (∀ cs zeros ds, (s.toList = cs ∨ s.toList = '+' :: cs) →
    Hexadecimal cs zeros ds → 32 < ds.length) → c.setStatelessResetToken (some s) = c
  writtenBack : c.setStatelessResetToken c.getStatelessResetToken = c

/-- Timeouts come back as they were set. A reset token is accepted exactly as a hexadecimal
numeral of at most 128 bits, and comes back in lower case without leading zeros; any other text
changes nothing, and setting what was read changes nothing.
`src/config.rs:117–123,261–267,357–369`. -/
theorem config_readsBack (c : Config) : ReadsBack c := by
  constructor
  · intro idle handshake
    constructor
    · cases idle with
      | none => rfl
      | some ms => exact congrArg some (millisOf_fromMillis ms)
    · cases handshake with
      | none => rfl
      | some ms => exact congrArg some (millisOf_fromMillis ms)
  · intro s cs zeros ds hs hhex hlen
    have hlt := (value_lt_iff hhex).mpr hlen
    have hformat : formatToken (BitVec.ofNat 128 (valueFrom 16 0 ds)) = hexText ds := by
      rw [formatToken, hexText, ← toDigits_value hhex, BitVec.toNat_ofNat, Nat.mod_eq_of_lt hlt]
    have hparse := parseToken_eq_some_iff.mpr ⟨cs, zeros, ds, hs, hhex, hlen, hformat⟩
    rw [Config.setStatelessResetToken, hparse]
    exact congrArg some hformat
  · intro s hno
    have hparse : parseToken s = none := by
      rw [Option.eq_none_iff_forall_ne_some]
      intro t ht
      obtain ⟨cs, zeros, ds, hs, hhex, hlen, -⟩ := parseToken_eq_some_iff.mp ht
      exact absurd hlen (Nat.not_le.mpr (hno cs zeros ds hs hhex))
    rw [Config.setStatelessResetToken, hparse]
  · obtain ⟨⟨idle, handshake, token⟩, certPath, keyPath⟩ := c
    cases token with
    | none => rfl
    | some t =>
      have hread : fromStrRadix 16 (2 ^ 128) (formatToken t).toList = some t.toNat := by
        rw [formatToken, String.toList_ofList]
        exact fromStrRadix_toDigits (by decide) (by decide) t.isLt
      have hparse : parseToken (formatToken t) = some t := by
        rw [parseToken, hread, Option.map_some]
        simp
      simp only [Config.getStatelessResetToken, Option.map_some, Config.setStatelessResetToken,
        hparse]

/-- `src/conn.rs:127–130`. -/
structure SocketAddress where
  address : String
  port : UInt16
  deriving DecidableEq

/-- `src/conn.rs:159–161`. -/
def SocketAddress.getAddressResult (a : SocketAddress) : String :=
  a.address ++ ":" ++ toString a.port.toNat

/-- A list is cut in one way only before the last of its separators. -/
private theorem last_cut {α : Type} {a : α} {xs xs' ys ys' : List α} (hys : a ∉ ys)
    (hys' : a ∉ ys') (h : xs ++ a :: ys = xs' ++ a :: ys') : xs = xs' ∧ ys = ys' := by
  obtain ⟨cs, rfl, hcs⟩ | ⟨cs, rfl, hcs⟩ := List.append_eq_append_iff.mp h
  · cases cs with
    | nil => exact ⟨(List.append_nil xs).symm, (List.cons.inj hcs).2⟩
    | cons c cs =>
      refine absurd ?_ hys
      rw [(List.cons.inj hcs).2]
      simp
  · cases cs with
    | nil => exact ⟨List.append_nil xs', (List.cons.inj hcs).2.symm⟩
    | cons c cs =>
      refine absurd ?_ hys'
      rw [(List.cons.inj hcs).2]
      simp

/-- Addresses with the same text are the same, whatever colons are in them.
`src/conn.rs:159–161`. -/
theorem getAddressResult_injective {a b : SocketAddress}
    (h : a.getAddressResult = b.getAddressResult) : a = b := by
  have hlist : ∀ a : SocketAddress, a.getAddressResult.toList =
      a.address.toList ++ ':' :: Nat.toDigits 10 a.port.toNat := by
    intro a
    simp [SocketAddress.getAddressResult]
  have hcolon : ∀ n, ':' ∉ Nat.toDigits 10 n := by
    intro n hmem
    have hdigit := Nat.isDigit_of_mem_toDigits (by decide) (by decide) hmem
    exact absurd hdigit (by decide)
  have hlists := congrArg String.toList h
  rw [hlist, hlist] at hlists
  obtain ⟨haddress, hdigits⟩ := last_cut (hcolon _) (hcolon _) hlists
  have hport : a.port.toNat = b.port.toNat := toDigits_injective (by decide) (by decide) hdigits
  cases a
  cases b
  simp_all [String.toList_inj, UInt16.toNat_inj]

end ExtQuiche.Host
