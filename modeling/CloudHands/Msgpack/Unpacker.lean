import CloudHands.Lib.TokenReader
import CloudHands.Msgpack.Store

/-!
# The msgpack readers

`utils/MessagePackUtil.java` over the Java unpacker and `utils/msgunpack/msgunpack.go` over the
Go decoder. Both skip a key before every value. The Java methods throw on a number that does
not fit their signed type, the Go methods cut it to their width.
-/

namespace CloudHands.Msgpack

open Lib Lib.TokenReader Japi

abbrev Unpacker (α : Type) : Type := TokenReader Token α

/-- `unpackString` and `DecodeString`, as bytes; a binary is taken for a string too. -/
def unpackRaw : Unpacker (List UInt8) := do
  match ← next with
  | .str bytes => pure bytes
  | .bin bytes => pure bytes
  | _ => throw

def unpackUint : Unpacker ℕ := do
  match ← next with
  | .uint v => pure v
  | _ => throw

def unpackMapLen : Unpacker ℕ := do
  match ← next with
  | .map n => pure n
  | _ => throw

def unpackArrayLen : Unpacker ℕ := do
  match ← next with
  | .array n => pure n
  | _ => throw

def below (bound : ℕ) (p : Unpacker ℕ) : Unpacker ℕ := do
  let v ← p
  if v < bound then pure v else throw

def unpackByte : Unpacker ℕ := below (2 ^ 7) unpackUint
def unpackInt : Unpacker ℕ := below (2 ^ 31) unpackUint
def unpackLong : Unpacker ℕ := below (2 ^ 63) unpackUint
def unpackMapHeader : Unpacker ℕ := below (2 ^ 31) unpackMapLen
def unpackArrayHeader : Unpacker ℕ := below (2 ^ 31) unpackArrayLen

/-- `unpackString` of the Java side, with the bytes decoded. -/
def unpackString (replaced : List UInt8 → String) : Unpacker String := do
  let bytes ← unpackRaw
  check (bytes.length < 2 ^ 31)
  pure (decodeText replaced bytes)

def named {α : Type} (p : Unpacker α) : Unpacker α := do
  let _ ← unpackRaw
  p

def parseByte : Unpacker ℕ := named unpackByte
def parseInt : Unpacker ℕ := named unpackInt
def parseLong : Unpacker ℕ := named unpackLong
def parseRaw : Unpacker (List UInt8) := named unpackRaw

def parseText (replaced : List UInt8 → String) : Unpacker String := named (unpackString replaced)

/-- A named map, which has to have `n` entries. -/
def parseMapOf (n : ℕ) : Unpacker Unit := do
  let m ← named unpackMapHeader
  check (m = n)

/-- A named map header, followed by as many times `p`. -/
def parseMapTimes {α : Type} (p : Unpacker α) : Unpacker (List α) := do
  let n ← named unpackMapHeader
  times p n

/-- A named array header, followed by as many times `p`. -/
def parseArrayTimes {α : Type} (p : Unpacker α) : Unpacker (List α) := do
  let n ← named unpackArrayHeader
  times p n

/-- The Go methods `UnpackUInt8` to `UnpackUInt64`, by the width in bits. -/
def goUint (bits : ℕ) : Unpacker ℕ := named ((· % 2 ^ bits) <$> unpackUint)

theorem yields_raw_str (bs : List UInt8) : Yields unpackRaw [.str bs] bs :=
  (yields_next _).bind_pure (yields_pure _)

theorem yields_raw_bin (bs : List UInt8) : Yields unpackRaw [.bin bs] bs :=
  (yields_next _).bind_pure (yields_pure _)

theorem yields_uint (v : ℕ) : Yields unpackUint [.uint v] v :=
  (yields_next _).bind_pure (yields_pure _)

theorem yields_mapLen (n : ℕ) : Yields unpackMapLen [.map n] n :=
  (yields_next _).bind_pure (yields_pure _)

theorem yields_arrayLen (n : ℕ) : Yields unpackArrayLen [.array n] n :=
  (yields_next _).bind_pure (yields_pure _)

theorem yields_below {bound v : ℕ} {p : Unpacker ℕ} {ts : List Token} (hp : Yields p ts v)
    (h : v < bound) : Yields (below bound p) ts v := by
  refine hp.bind_pure ?_
  rw [if_pos h]
  exact yields_pure v

theorem yields_named {α : Type} {k : String} {t : Token} {p : Unpacker α} {a : α}
    (hp : Yields p [t] a) (hk : k.isEmpty = false) : Yields (named p) (withKey k t) a := by
  rw [withKey_of_ne hk]
  exact (yields_raw_str (utf8Bytes k)).bind hp

theorem yields_goUint {k : String} {bits v : ℕ} (h : v < 2 ^ bits) (hk : k.isEmpty = false) :
    Yields (goUint bits) (withKey k (.uint v)) v := by
  have hmod := (yields_uint v).map (· % 2 ^ bits)
  rw [Nat.mod_eq_of_lt h] at hmod
  exact yields_named hmod hk

theorem yields_string {replaced : List UInt8 → String} {v : List UInt8} (hv : v.length < 2 ^ 31) :
    Yields (unpackString replaced) [.str v] (decodeText replaced v) :=
  (yields_raw_str v).bind_pure ((yields_check hv).nil_bind (yields_pure _))

theorem yields_text {replaced : List UInt8 → String} {k : String} {v : List UInt8}
    (hv : v.length < 2 ^ 31) : Yields (parseText replaced) (writeKv k v) (decodeText replaced v) :=
  (yields_raw_str (utf8Bytes k)).bind (yields_string hv)

theorem yields_literal {replaced : List UInt8 → String} {k s : String}
    (hs : (utf8Bytes s).length < 2 ^ 31) :
      Yields (parseText replaced) (writeKv k (utf8Bytes s)) s := by
  have htext : Yields (parseText replaced) (writeKv k (utf8Bytes s)) _ := yields_text hs
  rwa [decodeText_utf8Bytes] at htext

theorem yields_mapOf {k : String} {n : ℕ} (hn : n < 2 ^ 31) (hk : k.isEmpty = false) :
    Yields (parseMapOf n) (mapStart k n) () :=
  (yields_named (yields_below (yields_mapLen n) hn) hk).bind_pure (yields_check rfl)

theorem yields_int {k : String} {v : ℕ} (hv : v < 2 ^ 31) (hk : k.isEmpty = false) :
    Yields parseInt (withKey k (.uint v)) v :=
  yields_named (yields_below (yields_uint v) hv) hk

theorem yields_long {k : String} {v : ℕ} (hv : v < 2 ^ 63) (hk : k.isEmpty = false) :
    Yields parseLong (withKey k (.uint v)) v :=
  yields_named (yields_below (yields_uint v) hv) hk

theorem yields_byte {k : String} {v : ℕ} (hv : v < 2 ^ 7) (hk : k.isEmpty = false) :
    Yields parseByte (withKey k (.uint v)) v :=
  yields_named (yields_below (yields_uint v) hv) hk

theorem yields_bin {k : String} (data : List UInt8) (hk : k.isEmpty = false) :
    Yields parseRaw (writeBinKv k data) data :=
  yields_named (yields_raw_bin data) hk

theorem below_run_eq_some {bound : ℕ} {p : Unpacker ℕ} {ts rest rest' : List Token} {v w : ℕ}
    (hp : Yields p ts v) (h : (below bound p).run (ts ++ rest) = some (w, rest')) :
    v < bound ∧ w = v ∧ rest' = rest := by
  rw [below, hp.bind_run] at h
  split at h
  · obtain ⟨rfl, rfl⟩ := Prod.mk.inj (Option.some.inj h)
    exact ⟨‹_›, rfl, rfl⟩
  · cases h

theorem check_run_eq_some {c : Prop} [Decidable c] {ts rest : List Token}
    (h : (check c : Unpacker Unit).run ts = some ((), rest)) : c := by
  by_contra hc
  rw [check, if_neg hc] at h
  cases h

theorem string_bind_run {β : Type} {replaced : List UInt8 → String} {v : List UInt8}
    {f : String → Unpacker β} {rest rest' : List Token} {b : β}
    (h : (unpackString replaced >>= f).run ([.str v] ++ rest) = some (b, rest')) :
    v.length < 2 ^ 31 ∧ (f (decodeText replaced v)).run rest = some (b, rest') := by
  have hlen : v.length < 2 ^ 31 := by
    obtain ⟨s, mid, hs, -⟩ := run_bind_eq_some.1 h
    rw [unpackString, (yields_raw_str v).bind_run] at hs
    obtain ⟨⟨⟩, mid', hcheck, -⟩ := run_bind_eq_some.1 hs
    exact check_run_eq_some hcheck
  rw [(yields_string hlen).bind_run] at h
  exact ⟨hlen, h⟩

theorem text_bind_run {β : Type} {replaced : List UInt8 → String} {k : String} {v : List UInt8}
    {f : String → Unpacker β} {rest rest' : List Token} {b : β}
    (h : (parseText replaced >>= f).run (writeKv k v ++ rest) = some (b, rest')) :
    v.length < 2 ^ 31 ∧ (f (decodeText replaced v)).run rest = some (b, rest') := by
  rw [parseText, named, bind_assoc, writeKv] at h
  exact string_bind_run (((yields_raw_str (utf8Bytes k)).bind_run _ _).symm.trans h)

theorem text_run_eq_some {replaced : List UInt8 → String} {k : String} {v : List UInt8}
    {rest rest' : List Token} {s : String}
    (h : (parseText replaced).run (writeKv k v ++ rest) = some (s, rest')) :
    v.length < 2 ^ 31 ∧ s = decodeText replaced v ∧ rest' = rest := by
  rw [← bind_pure (parseText replaced)] at h
  obtain ⟨hlen, h⟩ := text_bind_run h
  obtain ⟨rfl, rfl⟩ := Prod.mk.inj (Option.some.inj h)
  exact ⟨hlen, rfl, rfl⟩

theorem named_run {α : Type} {k : String} {t : Token} {p : Unpacker α} (hk : k.isEmpty = false)
    (rest : List Token) : (named p).run (withKey k t ++ rest) = p.run ([t] ++ rest) := by
  rw [withKey_of_ne hk]
  exact (yields_raw_str (utf8Bytes k)).bind_run _ _

theorem uint_run_eq_some {k : String} {bound v w : ℕ} {rest rest' : List Token}
    (hk : k.isEmpty = false)
    (h : (named (below bound unpackUint)).run (withKey k (.uint v) ++ rest) = some (w, rest')) :
    v < bound ∧ w = v ∧ rest' = rest := by
  rw [named_run hk] at h
  exact below_run_eq_some (yields_uint v) h

theorem takes_raw : Takes unpackRaw 1 := by
  refine takes_next.bind_zero fun t => ?_
  cases t
  case str => exact takes_pure _
  case bin => exact takes_pure _
  all_goals exact takes_throw 0

theorem takes_uint : Takes unpackUint 1 := by
  refine takes_next.bind_zero fun t => ?_
  cases t
  case uint => exact takes_pure _
  all_goals exact takes_throw 0

theorem takes_mapLen : Takes unpackMapLen 1 := by
  refine takes_next.bind_zero fun t => ?_
  cases t
  case map => exact takes_pure _
  all_goals exact takes_throw 0

theorem Takes.below {p : Unpacker ℕ} {n : ℕ} (hp : Takes p n) (bound : ℕ) :
    Takes (below bound p) n := by
  refine hp.bind_zero fun v => ?_
  split
  · exact takes_pure v
  · exact takes_throw 0

theorem Takes.named {α : Type} {p : Unpacker α} {n : ℕ} (hp : Takes p n) :
    Takes (named p) (1 + n) :=
  takes_raw.bind fun _ => hp

theorem takes_mapOf (n : ℕ) : Takes (parseMapOf n) 2 :=
  (Takes.named (Takes.below takes_mapLen _)).bind_zero fun _ => takes_check

theorem takes_int : Takes parseInt 2 := Takes.named (Takes.below takes_uint _)

theorem takes_long : Takes parseLong 2 := Takes.named (Takes.below takes_uint _)

theorem takes_byte : Takes parseByte 2 := Takes.named (Takes.below takes_uint _)

theorem takes_parseRaw : Takes parseRaw 2 := Takes.named takes_raw

section Lists

variable {α γ : Type} {p : Unpacker α} {enc : γ → List Token} {dec : γ → α} {xs : List γ}

theorem count32_of_lt (h : xs.length < 2 ^ 31) : count32 xs = xs.length :=
  Nat.mod_eq_of_lt (by omega)

/-- A named header of either kind, followed by as many times `p`. -/
def parseCounted (len : Unpacker ℕ) (p : Unpacker α) : Unpacker (List α) := do
  let n ← named (below (2 ^ 31) len)
  times p n

theorem yields_counted {len : Unpacker ℕ} {header : ℕ → Token}
    (hheader : ∀ n, Yields len [header n] n) {k : String} (hk : k.isEmpty = false)
    (hlen : xs.length < 2 ^ 31) (h : ∀ x ∈ xs, Yields p (enc x) (dec x)) :
    Yields (parseCounted len p) (withKey k (header (count32 xs)) ++ xs.flatMap enc)
      (xs.map dec) := by
  rw [count32_of_lt hlen]
  exact (yields_named (yields_below (hheader _) hlen) hk).bind (yields_times h)

theorem yields_arrayTimes {k : String} (hk : k.isEmpty = false) (hlen : xs.length < 2 ^ 31)
    (h : ∀ x ∈ xs, Yields p (enc x) (dec x)) :
    Yields (parseArrayTimes p) (arrayStart k (count32 xs) ++ xs.flatMap enc) (xs.map dec) :=
  yields_counted yields_arrayLen hk hlen h

theorem yields_mapTimes {k : String} (hk : k.isEmpty = false) (hlen : xs.length < 2 ^ 31)
    (h : ∀ x ∈ xs, Yields p (enc x) (dec x)) :
    Yields (parseMapTimes p) (mapStart k (count32 xs) ++ xs.flatMap enc) (xs.map dec) :=
  yields_counted yields_mapLen hk hlen h

variable {same : α → γ → Prop} {readable : γ → Prop} {rest rest' : List Token} {got : List α}

theorem counted_of_same {len : Unpacker ℕ} {header : ℕ → Token}
    (hheader : ∀ n, Yields len [header n] n) {k : String} (hk : k.isEmpty = false)
    (hp : ∀ {x a rest rest'}, p.run (enc x ++ rest) = some (a, rest') → same a x →
      readable x ∧ rest' = rest)
    (hrun : (parseCounted len p).run (withKey k (header (count32 xs)) ++ xs.flatMap enc ++ rest) =
      some (got, rest'))
    (hsame : List.Forall₂ same got xs) :
    (xs.length < 2 ^ 31 ∧ ∀ x ∈ xs, readable x) ∧ rest' = rest := by
  obtain ⟨n, mid, hn, htimes⟩ := run_bind_eq_some.1 hrun
  rw [List.append_assoc, named_run hk] at hn
  obtain ⟨hlt, rfl, rfl⟩ := below_run_eq_some (hheader _) hn
  have hlen : count32 xs = xs.length := by
    rw [← hsame.length_eq]
    exact (guarantees_times (guarantees_true _) _ htimes).1.symm
  rw [hlen] at hlt htimes
  obtain ⟨hall, hrest⟩ := times_of_same hp htimes hsame
  exact ⟨⟨hlt, hall⟩, hrest⟩

theorem arrayTimes_of_same {k : String} (hk : k.isEmpty = false)
    (hp : ∀ {x a rest rest'}, p.run (enc x ++ rest) = some (a, rest') → same a x →
      readable x ∧ rest' = rest)
    (hrun : (parseArrayTimes p).run (arrayStart k (count32 xs) ++ xs.flatMap enc ++ rest) =
      some (got, rest'))
    (hsame : List.Forall₂ same got xs) :
    (xs.length < 2 ^ 31 ∧ ∀ x ∈ xs, readable x) ∧ rest' = rest :=
  counted_of_same yields_arrayLen hk hp hrun hsame

theorem mapTimes_of_same {k : String} (hk : k.isEmpty = false)
    (hp : ∀ {x a rest rest'}, p.run (enc x ++ rest) = some (a, rest') → same a x →
      readable x ∧ rest' = rest)
    (hrun : (parseMapTimes p).run (mapStart k (count32 xs) ++ xs.flatMap enc ++ rest) =
      some (got, rest'))
    (hsame : List.Forall₂ same got xs) :
    (xs.length < 2 ^ 31 ∧ ∀ x ∈ xs, readable x) ∧ rest' = rest :=
  counted_of_same yields_mapLen hk hp hrun hsame

end Lists

end CloudHands.Msgpack
