import CloudHands.Lib.Base64
import CloudHands.Mail.MimeBody

/-!
# Encoded texts

What the decoder makes of a body that was encoded: base64 in lines of any lengths, cut into any
whole groups, and quoted-printable with its soft line breaks.
-/

namespace CloudHands.Mail

open Http

open Lib (Base64.encode Base64.digit Base64.pad)

def sextets : List UInt8 → List ℕ
  | [] => []
  | [a] => [a.toNat / 4, a.toNat % 4 * 16]
  | [a, b] => [a.toNat / 4, a.toNat % 4 * 16 + b.toNat / 16, b.toNat % 16 * 4]
  | a :: b :: c :: rest =>
    a.toNat / 4 :: (a.toNat % 4 * 16 + b.toNat / 16) :: (b.toNat % 16 * 4 + c.toNat / 64) ::
      c.toNat % 64 ::
      sextets rest

theorem sextets_lt {bytes : List UInt8} : ∀ n ∈ sextets bytes, n < 64 := by
  induction bytes using sextets.induct with
  | case1 => exact fun n hn => (List.not_mem_nil hn).elim
  | case2 a =>
    have ha := a.toNat_lt
    simp only [sextets, List.forall_mem_cons, List.not_mem_nil, false_imp_iff, implies_true,
      and_true]
    omega
  | case3 a b =>
    have ha := a.toNat_lt
    have hb := b.toNat_lt
    simp only [sextets, List.forall_mem_cons, List.not_mem_nil, false_imp_iff, implies_true,
      and_true]
    omega
  | case4 a b c rest ih =>
    have ha := a.toNat_lt
    have hb := b.toNat_lt
    have hc := c.toNat_lt
    simp only [sextets, List.forall_mem_cons]
    exact ⟨by omega, by omega, by omega, by omega, ih⟩

theorem encode_eq_sextets (bytes : List UInt8) :
    ∃ pads, Base64.encode bytes = (sextets bytes).map Base64.digit ++ pads ∧ ∀ c ∈ pads,
      c = Base64.pad := by
  induction bytes using sextets.induct with
  | case1 => exact ⟨[], rfl, fun c hc => (List.not_mem_nil hc).elim⟩
  | case2 a => exact ⟨[Base64.pad, Base64.pad], rfl, by simp⟩
  | case3 a b => exact ⟨[Base64.pad], rfl, by simp⟩
  | case4 a b c rest ih =>
    obtain ⟨pads, hencode, hpads⟩ := ih
    exact ⟨pads, by rw [Base64.encode, hencode]; rfl, hpads⟩

theorem basis64_digit_all :
    ∀ n ∈ List.range 64, basis64 (Base64.digit n) = some (UInt8.ofNat n) := by decide

theorem mapM_basis64_digits {ns : List ℕ} (h : ∀ n ∈ ns, n < 64) :
    (ns.map Base64.digit).mapM basis64 = some (ns.map UInt8.ofNat) := by
  induction ns with
  | nil => rfl
  | cons n ns ih =>
    have hhead := basis64_digit_all n (List.mem_range.2 (h n List.mem_cons_self))
    have htail := ih fun m hm => h m (List.mem_cons_of_mem n hm)
    rw [List.map_cons, List.mapM_cons, hhead, htail]
    rfl

theorem takeWhile_digits {ns : List ℕ} (h : ∀ n ∈ ns, n < 64) {pads : List UInt8}
    (hpads : ∀ c ∈ pads, c = Base64.pad) :
    (ns.map Base64.digit ++ pads).takeWhile (· ≠ 61) = ns.map Base64.digit := by
  have hdigits : ∀ c ∈ ns.map Base64.digit, decide (c ≠ 61) = true := by
    intro c hc
    obtain ⟨n, hn, rfl⟩ := List.mem_map.1 hc
    exact decide_eq_true (Lib.Base64.digit_ne_pad (h n hn))
  rw [List.takeWhile_append_of_pos hdigits]
  cases pads with
  | nil => rw [List.takeWhile_nil, List.append_nil]
  | cons c pads =>
    rw [List.takeWhile_cons_of_neg, List.append_nil]
    rw [hpads c List.mem_cons_self]
    decide

theorem toNat_joined {x y : UInt8} {hi lo : ℕ} {i : ℕ} (hx : x.toNat = 2 ^ i * hi)
    (hy : y.toNat = lo)
    (hlo : lo < 2 ^ i) : (x ||| y).toNat = 2 ^ i * hi + lo := by
  rw [UInt8.toNat_or, hx, hy, Nat.two_pow_add_eq_or_of_lt hlo]

theorem first_joined {n m : ℕ} (hn : n < 64) (hm : m < 64) :
    UInt8.ofNat n <<< 2 ||| UInt8.ofNat m >>> 4 = UInt8.ofNat (n * 4 + m / 16) := by
  have hx : (UInt8.ofNat n <<< 2).toNat = 2 ^ 2 * n := by
    rw [UInt8.toNat_shiftLeft, UInt8.toNat_ofNat', Nat.shiftLeft_eq]
    change n % 2 ^ 8 * 2 ^ 2 % 2 ^ 8 = _
    omega
  have hy : (UInt8.ofNat m >>> 4).toNat = m / 16 := by
    rw [UInt8.toNat_shiftRight, UInt8.toNat_ofNat', Nat.shiftRight_eq_div_pow]
    change m % 2 ^ 8 / 2 ^ 4 = _
    omega
  refine UInt8.toNat_inj.1 ((toNat_joined hx hy (by omega)).trans ?_)
  rw [UInt8.toNat_ofNat']
  omega

theorem second_joined {n m : ℕ} (hm : m < 64) :
    UInt8.ofNat n <<< 4 ||| UInt8.ofNat m >>> 2 = UInt8.ofNat (n * 16 + m / 4) := by
  have hx : (UInt8.ofNat n <<< 4).toNat = 2 ^ 4 * (n % 16) := by
    rw [UInt8.toNat_shiftLeft, UInt8.toNat_ofNat', Nat.shiftLeft_eq]
    change n % 2 ^ 8 * 2 ^ 4 % 2 ^ 8 = _
    omega
  have hy : (UInt8.ofNat m >>> 2).toNat = m / 4 := by
    rw [UInt8.toNat_shiftRight, UInt8.toNat_ofNat', Nat.shiftRight_eq_div_pow]
    change m % 2 ^ 8 / 2 ^ 2 = _
    omega
  refine UInt8.toNat_inj.1 ((toNat_joined hx hy (by omega)).trans ?_)
  rw [UInt8.toNat_ofNat']
  omega

theorem third_joined {n m : ℕ} (hm : m < 64) :
    UInt8.ofNat n <<< 6 ||| UInt8.ofNat m = UInt8.ofNat (n * 64 + m) := by
  have hx : (UInt8.ofNat n <<< 6).toNat = 2 ^ 6 * (n % 4) := by
    rw [UInt8.toNat_shiftLeft, UInt8.toNat_ofNat', Nat.shiftLeft_eq]
    change n % 2 ^ 8 * 2 ^ 6 % 2 ^ 8 = _
    omega
  have hy : (UInt8.ofNat m).toNat = m := by
    rw [UInt8.toNat_ofNat']
    omega
  refine UInt8.toNat_inj.1 ((toNat_joined hx hy (by omega)).trans ?_)
  rw [UInt8.toNat_ofNat']
  omega

theorem ofNat_eq_of_mod {b : UInt8} {n : ℕ} (hn : n % 256 = b.toNat) : UInt8.ofNat n = b := by
  rw [← UInt8.toNat_inj, UInt8.toNat_ofNat', ← hn]

theorem decodeGroups_sextets (bytes : List UInt8) :
    decodeGroups ((sextets bytes).map UInt8.ofNat) = bytes := by
  induction bytes using sextets.induct with
  | case1 => rfl
  | case2 a =>
    have ha := a.toNat_lt
    have hone := first_joined (n := a.toNat / 4) (m := a.toNat % 4 * 16) (by omega) (by omega)
    rw [sextets, List.map_cons, List.map_cons, List.map_nil, decodeGroups, hone,
      ofNat_eq_of_mod (b := a) (by omega)]
  | case3 a b =>
    have ha := a.toNat_lt
    have hb := b.toNat_lt
    have hone := first_joined (n := a.toNat / 4) (m := a.toNat % 4 * 16 + b.toNat / 16) (by omega)
        (by omega)
    have htwo := second_joined (n := a.toNat % 4 * 16 + b.toNat / 16) (m := b.toNat % 16 * 4)
        (by omega)
    rw [sextets, List.map_cons, List.map_cons, List.map_cons, List.map_nil, decodeGroups, hone,
      htwo,
      ofNat_eq_of_mod (b := a) (by omega), ofNat_eq_of_mod (b := b) (by omega)]
  | case4 a b c rest ih =>
    have ha := a.toNat_lt
    have hb := b.toNat_lt
    have hc := c.toNat_lt
    have hone := first_joined (n := a.toNat / 4) (m := a.toNat % 4 * 16 + b.toNat / 16) (by omega)
        (by omega)
    have htwo := second_joined (n := a.toNat % 4 * 16 + b.toNat / 16)
        (m := b.toNat % 16 * 4 + c.toNat / 64)
      (by omega)
    have hthree := third_joined (n := b.toNat % 16 * 4 + c.toNat / 64) (m := c.toNat % 64)
        (by omega)
    rw [sextets, List.map_cons, List.map_cons, List.map_cons, List.map_cons, decodeGroups, hone,
      htwo, hthree,
      ofNat_eq_of_mod (b := a) (by omega), ofNat_eq_of_mod (b := b) (by omega),
      ofNat_eq_of_mod (b := c) (by omega), ih]

theorem length_sextets_mod (bytes : List UInt8) : (sextets bytes).length % 4 ≠ 1 := by
  induction bytes using sextets.induct with
  | case1 => decide
  | case2 a => exact (by decide : 2 % 4 ≠ 1)
  | case3 a b => exact (by decide : 3 % 4 ≠ 1)
  | case4 a b c rest ih =>
    simp only [sextets, List.length_cons]
    omega

theorem decodeText_encode (bytes : List UInt8) : decodeText (Base64.encode bytes) = bytes := by
  obtain ⟨pads, hencode, hpads⟩ := encode_eq_sextets bytes
  have hlength : ((sextets bytes).map UInt8.ofNat).length % 4 ≠ 1 := by
    rw [List.length_map]
    exact length_sextets_mod bytes
  rw [decodeText, decodeBase64, hencode, takeWhile_digits sextets_lt hpads,
    mapM_basis64_digits sextets_lt,
    Option.bind_some, if_neg hlength, Option.getD_some, decodeGroups_sextets]

theorem length_encode (bytes : List UInt8) : 4 ∣ (Base64.encode bytes).length := by
  induction bytes using CloudHands.Lib.Base64.encode.induct with
  | case1 => exact Nat.dvd_zero 4
  | case2 a => exact Nat.dvd_refl 4
  | case3 a b => exact Nat.dvd_refl 4
  | case4 a b c rest ih =>
    simp only [Base64.encode, List.length_cons]
    omega

theorem encode_split {bytes cut rest : List UInt8} (h : Base64.encode bytes = cut ++ rest)
    (hcut : 4 ∣ cut.length) :
    ∃ front back, bytes = front ++ back ∧ Base64.encode front = cut ∧
      Base64.encode back = rest := by
  induction bytes using CloudHands.Lib.Base64.encode.induct generalizing cut with
  | case1 =>
    obtain ⟨rfl, rfl⟩ := List.append_eq_nil_iff.1 h.symm
    exact ⟨[], [], rfl, rfl, rfl⟩
  | case2 a =>
    rcases Nat.eq_zero_or_pos cut.length with hzero | hpos
    · obtain rfl := List.length_eq_zero_iff.1 hzero
      exact ⟨[], [a], rfl, rfl, h⟩
    · have hlength := congrArg List.length h
      rw [List.length_append] at hlength
      have hfour : (Base64.encode [a]).length = 4 := rfl
      obtain rfl := List.length_eq_zero_iff.1 (by omega : rest.length = 0)
      exact ⟨[a], [], rfl, h.trans (List.append_nil cut), rfl⟩
  | case3 a b =>
    rcases Nat.eq_zero_or_pos cut.length with hzero | hpos
    · obtain rfl := List.length_eq_zero_iff.1 hzero
      exact ⟨[], [a, b], rfl, rfl, h⟩
    · have hlength := congrArg List.length h
      rw [List.length_append] at hlength
      have hfour : (Base64.encode [a, b]).length = 4 := rfl
      obtain rfl := List.length_eq_zero_iff.1 (by omega : rest.length = 0)
      exact ⟨[a, b], [], rfl, h.trans (List.append_nil cut), rfl⟩
  | case4 a b c more ih =>
    rcases cut with - | ⟨w, - | ⟨x, - | ⟨y, - | ⟨z, cut⟩⟩⟩⟩
    · exact ⟨[], a :: b :: c :: more, rfl, rfl, h⟩
    · exact absurd hcut (by simp)
    · exact absurd hcut (by simp)
    · exact absurd hcut (by simp)
    · simp only [Base64.encode, List.cons_append, List.cons.injEq] at h
      obtain ⟨rfl, rfl, rfl, rfl, hmore⟩ := h
      simp only [List.length_cons] at hcut
      obtain ⟨front, back, rfl, rfl, rfl⟩ := ih hmore (by omega)
      exact ⟨a :: b :: c :: front, back, rfl, rfl, rfl⟩

theorem Blocks.of_encode {bytes out : List UInt8} (h : Blocks (Base64.encode bytes) out) :
    out = bytes := by
  obtain ⟨cuts, htext, hcuts, rfl⟩ := h
  induction cuts generalizing bytes with
  | nil =>
    by_contra hne
    exact Lib.Base64.encode_ne_nil (Ne.symm hne) htext
  | cons cut cuts ih =>
    obtain ⟨front, back, rfl, rfl, hback⟩ := encode_split htext (hcuts cut List.mem_cons_self)
    rw [List.flatMap_cons, decodeText_encode, ih hback fun c hc =>
      hcuts c (List.mem_cons_of_mem _ hc)]

def hexDigit (n : ℕ) : UInt8 := if n < 10 then UInt8.ofNat (n + 48) else UInt8.ofNat (n + 55)

inductive QPByte
  | literal (c : UInt8)
  | escape (b : UInt8)

def QPByte.text : QPByte → List UInt8
  | .literal c => [c]
  | .escape b => [61, hexDigit (b.toNat / 16), hexDigit (b.toNat % 16)]

def QPByte.byte : QPByte → UInt8
  | .literal c => c
  | .escape b => b

def QPByte.Valid : QPByte → Prop
  | .literal c => c ≠ 61
  | .escape _ => True

structure QPLine where
  bytes : List QPByte
  soft : Bool

def QPLine.text (line : QPLine) : List UInt8 :=
  line.bytes.flatMap QPByte.text ++ if line.soft then [61] else []

def QPLine.content (line : QPLine) : List UInt8 :=
  line.bytes.map QPByte.byte ++ if line.soft = true ∨ line.bytes = [] then [] else eol

def QPLine.Valid (line : QPLine) : Prop := ∀ b ∈ line.bytes, b.Valid

instance : (b : QPByte) → Decidable b.Valid
  | .literal c => inferInstanceAs (Decidable (c ≠ 61))
  | .escape _ => isTrue trivial

instance (line : QPLine) : Decidable line.Valid :=
  inferInstanceAs (Decidable (∀ b ∈ line.bytes, b.Valid))

theorem decodeQPChar_all : ∀ n ∈ List.range 16,
    decodeQPChar (hexDigit n) = some (UInt8.ofNat n) := by decide

theorem qpEscape_hex (b : UInt8) (rest : List UInt8) :
    qpEscape (hexDigit (b.toNat / 16) :: hexDigit (b.toNat % 16) :: rest) = some b := by
  have hb := b.toNat_lt
  have hhigh := decodeQPChar_all (b.toNat / 16) (List.mem_range.2 (by omega))
  have hlow := decodeQPChar_all (b.toNat % 16) (List.mem_range.2 (by omega))
  rw [qpEscape, hhigh, Option.bind_some, hlow, Option.map_some]
  refine congrArg some (UInt8.toNat_inj.1 ?_)
  rw [UInt8.toNat_add, UInt8.toNat_shiftLeft, UInt8.toNat_ofNat', UInt8.toNat_ofNat',
    Nat.shiftLeft_eq]
  change (b.toNat / 16 % 2 ^ 8 * 2 ^ 4 % 2 ^ 8 + b.toNat % 16 % 2 ^ 8) % 2 ^ 8 = _
  omega

theorem qpUnit_byte {b : QPByte} (hb : b.Valid) (rest : List UInt8) :
    ∃ c tail, b.text ++ rest = c :: tail ∧ tail.length + 1 = b.text.length + rest.length ∧
      qpUnit c tail = (b.byte :: if rest = [] then eol else [], rest) := by
  cases b with
  | literal c => exact ⟨c, rest, rfl, Nat.add_comm _ _, if_pos hb⟩
  | escape b =>
    refine ⟨61, hexDigit (b.toNat / 16) :: hexDigit (b.toNat % 16) :: rest, rfl,
      Nat.add_comm rest.length 3, ?_⟩
    rw [qpUnit, if_neg (not_not_intro rfl), qpEscape_hex]
    rfl

theorem qpText_line {line : QPLine} (hvalid : line.Valid) {fuel : ℕ}
    (hfuel : line.text.length ≤ fuel) :
    qpText fuel line.text = line.content := by
  obtain ⟨bytes, soft⟩ := line
  induction bytes generalizing fuel with
  | nil =>
    cases soft with
    | false => cases fuel <;> rfl
    | true =>
      cases fuel with
      | zero => rfl
      | succ fuel => cases fuel <;> rfl
  | cons b bytes ih =>
    have hsplit : (⟨b :: bytes, soft⟩ : QPLine).text = b.text ++ (⟨bytes, soft⟩ : QPLine).text := by
      rw [QPLine.text, QPLine.text, List.flatMap_cons, List.append_assoc]
    obtain ⟨c, tail, htext, hlength, hunit⟩ :=
      qpUnit_byte (hvalid b List.mem_cons_self) (⟨bytes, soft⟩ : QPLine).text
    rw [hsplit, htext, List.length_cons] at hfuel
    obtain ⟨fuel, rfl⟩ : ∃ n, fuel = n + 1 := ⟨fuel - 1, by omega⟩
    have hpos : 0 < b.text.length := by cases b <;> exact Nat.succ_pos _
    have hless : (⟨bytes, soft⟩ : QPLine).text.length ≤ fuel := by omega
    have hrest := ih (fun b' hb' => hvalid b' (List.mem_cons_of_mem b hb')) hless
    rw [hsplit, htext, qpText, hunit, hrest]
    have hempty : (⟨bytes, soft⟩ : QPLine).text = [] ↔ bytes = [] ∧ soft = false := by
      cases soft <;> cases bytes with
      | nil => simp [QPLine.text]
      | cons b' bytes => cases b' <;> simp [QPLine.text, QPByte.text]
    simp only [QPLine.content, hempty]
    cases soft <;> cases bytes <;> simp

end CloudHands.Mail
