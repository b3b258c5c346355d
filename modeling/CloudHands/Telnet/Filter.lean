import CloudHands.Telnet.Parse
import Mathlib.Data.List.GetD

/-!
# Commands in a Telnet stream

A stream is data between commands. Its content is filtered exactly where the pieces are commands
that are followed by data.
-/

namespace CloudHands.Telnet

open Http (CR LF)

inductive TelnetUnit
  | data (b : UInt8)
  | command (verb : UInt8)
  | option (verb opt : UInt8)
  | sub (payload : List UInt8)
deriving DecidableEq, Repr

def escape (b : UInt8) : List UInt8 := if b = iac then [iac, iac] else [b]

def TelnetUnit.bytes : TelnetUnit → List UInt8
  | .data b => escape b
  | .command verb => [iac, verb]
  | .option verb opt => [iac, verb, opt]
  | .sub payload => iac :: sb :: (payload.flatMap escape ++ [iac, se])

def TelnetUnit.Valid : TelnetUnit → Prop
  | .data _ | .sub _ => True
  | .command verb => 241 ≤ verb ∧ verb ≤ 249
  | .option verb _ => 251 ≤ verb ∧ verb ≤ 254

/-- Not a command of two bytes, and nothing that needs an escape. -/
def TelnetUnit.Plain : TelnetUnit → Prop
  | .data b => b ≠ iac
  | .command _ => False
  | .option _ _ => True
  | .sub payload => iac ∉ payload

def TelnetUnit.IsCommand : TelnetUnit → Prop
  | .data _ => False
  | _ => True

def TelnetUnit.text : TelnetUnit → List UInt8
  | .data b => [b]
  | _ => []

def encode (units : List TelnetUnit) : List UInt8 := units.flatMap TelnetUnit.bytes

def shown : UInt8 → List UInt8 → List UInt8
  | _, [] => []
  | before, b :: rest =>
    (if b = 0 then (if before = CR then LF else 32) else b) :: shown b rest

def content (units : List TelnetUnit) : List UInt8 := shown 0 (units.flatMap TelnetUnit.text)

/-- The pieces of a stream are stored without its commands, and no look ahead leaves a piece. -/
def Filtered (units : List TelnetUnit) (pieces : List Segment) : Prop :=
  contentFile pieces = content units ∧ ∀ seg ∈ pieces, InBounds seg

/-- Each piece is commands and then data, which does not start with a zero byte when the data before
it ended in a return. -/
inductive Aligned : UInt8 → List TelnetUnit → List Segment → Prop
  | nil {before : UInt8} : Aligned before [] []
  | piece {before : UInt8} {commands units : List TelnetUnit} {text : List UInt8} {seg : Segment}
      {pieces : List Segment} :
    (∀ u ∈ commands, u.IsCommand) → seg.data = encode commands ++ text → iac ∉ text →
      ¬ (before = CR ∧ text.head? = some 0) → Aligned (text.getLastD before) units pieces →
      Aligned before (commands ++ (text.map .data ++ units)) (seg :: pieces)

section

variable {seg : Segment} {ptr reach fuel : ℕ} {rest : List UInt8}

theorem byte_eq {i : ℕ} (hi : i < rest.length) (hdata : seg.data.drop ptr = rest) :
    seg.byte (ptr + i) = rest.getD i 0 ∧ ptr + i < seg.data.length := by
  have hlen : seg.data.length - ptr = rest.length := by
    rw [← hdata, List.length_drop]
  have hlt : ptr + i < seg.data.length := by omega
  refine ⟨?_, hlt⟩
  rw [Segment.byte, ← hdata, List.getD_eq_getElem?_getD, List.getD_eq_getElem?_getD,
    List.getElem?_drop,
    List.getElem?_eq_getElem hlt]
  rfl

theorem subOptionEnd_spec (hfuel : seg.data.length ≤ ptr + fuel) :
    ptr < subOptionEnd seg fuel ptr ∧
      (∀ i, ptr < i → i < subOptionEnd seg fuel ptr → seg.byte i ≠ iac) ∧
      (seg.byte (subOptionEnd seg fuel ptr) = iac ∨
        seg.data.length ≤ subOptionEnd seg fuel ptr) := by
  induction fuel generalizing ptr with
  | zero =>
    rw [subOptionEnd]
    exact ⟨by omega, fun i hi hlt => by omega, .inr (by omega)⟩
  | succ fuel ih =>
    rw [subOptionEnd]
    split_ifs with hgo
    · obtain ⟨hlt, hnone, hstop⟩ := @ih (ptr + 1) (by omega)
      refine ⟨by omega, fun i hi hend => ?_, hstop⟩
      rcases Nat.lt_or_ge (ptr + 1) i with hlater | hnow
      · exact hnone i hlater hend
      · obtain rfl : i = ptr + 1 := by omega
        exact hgo.1
    · refine ⟨by omega, fun i hi hend => by omega, ?_⟩
      rw [not_and_or, not_not, Nat.not_lt] at hgo
      exact hgo

theorem subOptionEnd_stops (seg : Segment) (ptr : ℕ) :
    ptr < subOptionEnd seg seg.data.length ptr ∧
      (∀ i, ptr < i → i < subOptionEnd seg seg.data.length ptr → seg.byte i ≠ iac) ∧
      (seg.byte (subOptionEnd seg seg.data.length ptr) = iac ∨
        seg.data.length ≤ subOptionEnd seg seg.data.length ptr) :=
  subOptionEnd_spec (Nat.le_add_left _ _)

theorem le_skipLoop (seg : Segment) (fuel ptr reach : ℕ) :
    ptr ≤ (skipLoop seg fuel ptr reach).len ∧ reach ≤ (skipLoop seg fuel ptr reach).reach := by
  induction fuel generalizing ptr reach with
  | zero => exact ⟨le_rfl, le_rfl⟩
  | succ fuel ih =>
    rw [skipLoop]
    split_ifs with hlt hcmd hsub
    · have hstop := (subOptionEnd_stops seg (ptr + 1)).1
      have hrest := ih (subOptionEnd seg seg.data.length (ptr + 1) + 2)
        (max reach (subOptionEnd seg seg.data.length (ptr + 1) + 1))
      exact ⟨le_trans (by omega) hrest.1, le_trans (le_max_left _ _) hrest.2⟩
    · have hrest := ih (ptr + 3) (max reach (ptr + 2))
      exact ⟨by omega, le_trans (le_max_left _ _) hrest.2⟩
    · exact ⟨le_rfl, le_max_left _ _⟩
    · exact ⟨le_rfl, le_rfl⟩

theorem skipLoop_stop (hreach : reach ≤ seg.data.length)
    (hdata : seg.data.drop ptr = rest) (hrest : rest.head? ≠ some iac) :
    ∃ reach' ≤ seg.data.length, skipLoop seg fuel ptr reach = ⟨ptr, reach'⟩ := by
  cases fuel with
  | zero => exact ⟨reach, hreach, rfl⟩
  | succ fuel =>
    by_cases hlt : ptr < seg.data.length
    · have hcmd : seg.byte ptr ≠ iac := by
        intro hcmd
        refine hrest ?_
        rw [← hdata, List.head?_drop, List.getElem?_eq_getElem hlt, ← hcmd, Segment.byte,
          List.getD_eq_getElem _ _ hlt]
      refine ⟨max reach (ptr + 1), max_le hreach hlt, ?_⟩
      rw [skipLoop, if_pos hlt, if_neg hcmd]
    · refine ⟨reach, hreach, ?_⟩
      rw [skipLoop, if_neg hlt]

theorem subOptionEnd_payload {payload : List UInt8} (hpayload : iac ∉ payload)
    (hdata : seg.data.drop (ptr + 1) = payload ++ iac :: rest) :
    subOptionEnd seg seg.data.length ptr = ptr + 1 + payload.length := by
  obtain ⟨hlt, hnone, hstop⟩ := subOptionEnd_stops seg ptr
  have hbyte {i : ℕ} (hi : i ≤ payload.length) :
      seg.byte (ptr + 1 + i) = (payload ++ iac :: rest).getD i 0 ∧
        ptr + 1 + i < seg.data.length := by
    refine byte_eq ?_ hdata
    rw [List.length_append, List.length_cons]
    omega
  rcases Nat.lt_trichotomy (subOptionEnd seg seg.data.length ptr) (ptr + 1 + payload.length) with
    hless | heq | hmore
  · obtain ⟨i, hi⟩ := Nat.exists_eq_add_of_le (Nat.succ_le_of_lt hlt)
    have hshort : i < payload.length := by omega
    obtain ⟨hat, hin⟩ := hbyte hshort.le
    rw [hi] at hstop
    rcases hstop with hstop | hstop
    · rw [Nat.succ_eq_add_one, hat, List.getD_append _ _ _ _ hshort,
        List.getD_eq_getElem _ _ hshort] at hstop
      exact absurd (hstop ▸ List.getElem_mem hshort) hpayload
    · omega
  · exact heq
  · obtain ⟨hat, -⟩ := hbyte le_rfl
    refine absurd ?_ (hnone (ptr + 1 + payload.length) (by omega) hmore)
    rw [hat, List.getD_append_right _ _ _ _ le_rfl, Nat.sub_self]
    rfl

theorem escape_of_ne {b : UInt8} (hb : b ≠ iac) : escape b = [b] := if_neg hb

theorem flatMap_escape {payload : List UInt8} (hpayload : iac ∉ payload) :
    payload.flatMap escape = payload := by
  induction payload with
  | nil => rfl
  | cons b payload ih =>
    rw [List.mem_cons, not_or] at hpayload
    rw [List.flatMap_cons, escape_of_ne (Ne.symm hpayload.1), ih hpayload.2]
    rfl

theorem skipLoop_option {verb : UInt8} (hverb : verb ≠ sb)
    (hdata : seg.data.drop ptr = iac :: verb :: rest) :
    skipLoop seg (fuel + 1) ptr reach = skipLoop seg fuel (ptr + 3) (max reach (ptr + 2)) := by
  obtain ⟨hfirst, hlt⟩ : seg.byte ptr = iac ∧ ptr < seg.data.length :=
    byte_eq (i := 0) (by simp) hdata
  obtain ⟨hsecond, -⟩ : seg.byte (ptr + 1) = verb ∧ _ := byte_eq (i := 1) (by simp) hdata
  rw [skipLoop, if_pos hlt, if_pos hfirst, if_neg (hsecond ▸ hverb)]

theorem skipLoop_sub (hdata : seg.data.drop ptr = iac :: sb :: rest) :
    skipLoop seg (fuel + 1) ptr reach =
      skipLoop seg fuel (subOptionEnd seg seg.data.length (ptr + 1) + 2)
        (max reach (subOptionEnd seg seg.data.length (ptr + 1) + 1)) := by
  obtain ⟨hfirst, hlt⟩ : seg.byte ptr = iac ∧ ptr < seg.data.length :=
    byte_eq (i := 0) (by simp) hdata
  obtain ⟨hsecond, -⟩ : seg.byte (ptr + 1) = sb ∧ _ := byte_eq (i := 1) (by simp) hdata
  rw [skipLoop, if_pos hlt, if_pos hfirst, if_pos hsecond]

theorem skipLoop_mark (hdata : seg.data.drop ptr = [iac]) (fuel reach : ℕ) :
    ptr + 2 ≤ (skipLoop seg (fuel + 1) ptr reach).reach := by
  obtain ⟨hfirst, hlt⟩ : seg.byte ptr = iac ∧ ptr < seg.data.length :=
    byte_eq (i := 0) (by simp) hdata
  have hstop := (subOptionEnd_stops seg (ptr + 1)).1
  rw [skipLoop, if_pos hlt, if_pos hfirst]
  split_ifs
  · have hgrow := (le_skipLoop seg fuel (subOptionEnd seg seg.data.length (ptr + 1) + 2)
      (max reach (subOptionEnd seg seg.data.length (ptr + 1) + 1))).2
    have hread := le_max_right reach (subOptionEnd seg seg.data.length (ptr + 1) + 1)
    exact le_trans (by omega) hgrow
  · exact le_trans (le_max_right _ _) (le_skipLoop seg fuel (ptr + 3) (max reach (ptr + 2))).2

theorem skipLoop_command {u : TelnetUnit} (hcmd : u.IsCommand) (hvalid : u.Valid) (hplain : u.Plain)
    (hreach : reach ≤ seg.data.length) (hdata : seg.data.drop ptr = u.bytes ++ rest) (fuel : ℕ) :
    ∃ reach' ≤ seg.data.length,
      skipLoop seg (fuel + 1) ptr reach = skipLoop seg fuel (ptr + u.bytes.length) reach' := by
  have hlen := congrArg List.length hdata
  rw [List.length_drop, List.length_append] at hlen
  cases u with
  | data b => exact hcmd.elim
  | command verb => exact hplain.elim
  | option verb opt =>
    have hverb : verb ≠ sb := by
      rintro rfl
      exact absurd hvalid.1 (by decide)
    rw [TelnetUnit.bytes, List.cons_append, List.cons_append] at hdata
    refine ⟨max reach (ptr + 2), max_le hreach ?_, skipLoop_option hverb hdata⟩
    simp only [TelnetUnit.bytes, List.length_cons] at hlen
    omega
  | sub payload =>
    rw [TelnetUnit.bytes, flatMap_escape hplain] at hdata hlen ⊢
    simp only [List.cons_append, List.append_assoc, List.nil_append] at hdata
    have htail : seg.data.drop (ptr + 1 + 1) = payload ++ iac :: se :: rest := by
      rw [Nat.add_assoc, ← List.drop_drop, hdata]
      rfl
    have hstop := subOptionEnd_payload hplain htail
    have hend :
        ptr + 1 + 1 + payload.length + 2 = ptr + (iac :: sb :: (payload ++ [iac, se])).length := by
      simp only [List.length_cons, List.length_append, List.length_nil]
      omega
    rw [skipLoop_sub hdata, hstop, hend]
    refine ⟨_, max_le hreach ?_, rfl⟩
    simp only [List.length_cons, List.length_append, List.length_nil] at hlen
    omega

theorem skipLoop_cut {u : TelnetUnit} {missing : List UInt8} (hcmd : u.IsCommand) (hvalid : u.Valid)
    (hplain : u.Plain) (hrest : rest ≠ []) (hmissing : missing ≠ [])
    (hcut : u.bytes = rest ++ missing)
    (hdata : seg.data.drop ptr = rest) (fuel reach : ℕ) :
    seg.data.length < (skipLoop seg (fuel + 1) ptr reach).len ∨
      seg.data.length < (skipLoop seg (fuel + 1) ptr reach).reach := by
  have hlen := congrArg List.length hdata
  have hall := congrArg List.length hcut
  have hmore := List.length_pos_iff.2 hmissing
  rw [List.length_drop] at hlen
  rw [List.length_append] at hall
  obtain _ | ⟨mark, _ | ⟨verb, start⟩⟩ := rest
  · exact absurd rfl hrest
  · have hmark : mark = iac := by
      cases u with
      | data b => exact hcmd.elim
      | command verb => exact hplain.elim
      | option verb opt => exact (List.cons.inj hcut).1.symm
      | sub payload => exact (List.cons.inj hcut).1.symm
    rw [hmark] at hdata
    have hreach := skipLoop_mark hdata fuel reach
    rw [List.length_singleton] at hlen
    exact .inr (by omega)
  · cases u with
    | data b => exact hcmd.elim
    | command verb => exact hplain.elim
    | option verb' opt =>
      simp only [TelnetUnit.bytes, List.cons_append, List.cons.injEq] at hcut
      obtain ⟨rfl, rfl, -⟩ := hcut
      have hverb : verb' ≠ sb := by
        rintro rfl
        exact absurd hvalid.1 (by decide)
      have hgrow := (le_skipLoop seg fuel (ptr + 3) (max reach (ptr + 2))).1
      rw [skipLoop_option hverb hdata]
      simp only [TelnetUnit.bytes, List.length_cons, List.length_nil] at hlen hall
      exact .inl (by omega)
    | sub payload =>
      rw [TelnetUnit.bytes, flatMap_escape hplain] at hcut hall
      simp only [List.cons_append, List.cons.injEq] at hcut
      obtain ⟨rfl, rfl, hcut⟩ := hcut
      simp only [List.length_cons, List.length_append, List.length_nil] at hlen hall
      have hgrow := le_skipLoop seg fuel (subOptionEnd seg seg.data.length (ptr + 1) + 2)
        (max reach (subOptionEnd seg seg.data.length (ptr + 1) + 1))
      have hread := le_max_right reach (subOptionEnd seg seg.data.length (ptr + 1) + 1)
      obtain ⟨hlt, -, hstop⟩ := subOptionEnd_stops seg (ptr + 1)
      rw [skipLoop_sub hdata]
      rcases Nat.lt_or_ge (subOptionEnd seg seg.data.length (ptr + 1)) seg.data.length with
        hin | hout
      · -- it stopped at the mark of the end, and the byte behind that mark is missing
        refine .inl (lt_of_lt_of_le ?_ hgrow.1)
        obtain ⟨i, hi⟩ := Nat.exists_eq_add_of_le (Nat.succ_le_of_lt hlt)
        have hfound : payload.length ≤ i := by
          by_contra hshort
          have htail : seg.data.drop (ptr + 1 + 1) = start := by
            rw [Nat.add_assoc, ← List.drop_drop, hdata]
            rfl
          obtain ⟨hat, -⟩ := byte_eq (i := i) (by omega) htail
          have hsame : start.getD i 0 = payload.getD i 0 := by
            rw [← List.getD_append start missing 0 i (by omega), ← hcut,
              List.getD_append _ _ _ _ (Nat.lt_of_not_le hshort)]
          rw [hi, Nat.succ_eq_add_one, hat, hsame,
            List.getD_eq_getElem _ _ (Nat.lt_of_not_le hshort)] at hstop
          rcases hstop with hstop | hstop
          · exact hplain (hstop ▸ List.getElem_mem _)
          · omega
        omega
      · exact .inr (by omega)

end

def Handled (units : List TelnetUnit) : Prop := ∀ u ∈ units, u.Valid ∧ u.Plain

section

variable {seg : Segment} {ptr reach fuel : ℕ} {text more : List UInt8}
  {commands units : List TelnetUnit}

theorem TelnetUnit.bytes_ne_nil (u : TelnetUnit) : u.bytes ≠ [] := by
  cases u with
  | data b =>
    rw [bytes, escape]
    split_ifs <;> exact List.cons_ne_nil _ _
  | command verb => exact List.cons_ne_nil _ _
  | option verb opt => exact List.cons_ne_nil _ _
  | sub payload => exact List.cons_ne_nil _ _

theorem encode_cons (u : TelnetUnit) (units : List TelnetUnit) :
    encode (u :: units) = u.bytes ++ encode units := List.flatMap_cons

theorem skipLoop_commands (hcommands : ∀ u ∈ commands, u.IsCommand) (hhandled : Handled commands)
    (hreach : reach ≤ seg.data.length) (hfuel : seg.data.length ≤ ptr + fuel)
    (hdata : seg.data.drop ptr = encode commands ++ text) (htext : text.head? ≠ some iac) :
    ∃ reach' ≤ seg.data.length,
      skipLoop seg fuel ptr reach = ⟨ptr + (encode commands).length, reach'⟩ := by
  induction commands generalizing ptr reach fuel with
  | nil => exact skipLoop_stop hreach hdata htext
  | cons u commands ih =>
    obtain ⟨hu, hcommands⟩ := List.forall_mem_cons.1 hcommands
    obtain ⟨⟨hvalid, hplain⟩, hhandled⟩ := List.forall_mem_cons.1 hhandled
    rw [encode_cons, List.append_assoc] at hdata
    have hlen := congrArg List.length hdata
    have hpos := List.length_pos_iff.2 u.bytes_ne_nil
    rw [List.length_drop, List.length_append] at hlen
    obtain ⟨fuel, rfl⟩ : ∃ n, fuel = n + 1 := ⟨fuel - 1, by omega⟩
    obtain ⟨reach₁, hreach₁, hskip⟩ := skipLoop_command hu hvalid hplain hreach hdata fuel
    have htail : seg.data.drop (ptr + u.bytes.length) = encode commands ++ text := by
      rw [← List.drop_drop, hdata, List.drop_left]
    obtain ⟨reach₂, hreach₂, hrest⟩ := @ih _ _ fuel hcommands hhandled hreach₁ (by omega) htail
    refine ⟨reach₂, hreach₂, ?_⟩
    rw [hskip, hrest, encode_cons, List.length_append, Nat.add_assoc]

theorem exists_commands (hhandled : Handled units) (hreach : reach ≤ seg.data.length)
    (hfuel : seg.data.length ≤ ptr + fuel) (hdata : seg.data.drop ptr ++ more = encode units)
    (hlen : (skipLoop seg fuel ptr reach).len ≤ seg.data.length)
    (hbound : (skipLoop seg fuel ptr reach).reach ≤ seg.data.length) :
    ∃ commands units' text, units = commands ++ units' ∧ (∀ u ∈ commands, u.IsCommand) ∧
      seg.data.drop ptr = encode commands ++ text ∧ text ++ more = encode units' ∧
      text.head? ≠ some iac := by
  induction units generalizing ptr reach fuel with
  | nil =>
    obtain ⟨hnil, hmore⟩ := List.append_eq_nil_iff.1 hdata
    exact ⟨[], [], [], rfl, List.forall_mem_nil _, hnil, hmore, nofun⟩
  | cons u units ih =>
    obtain ⟨⟨hvalid, hplain⟩, hhandled⟩ := List.forall_mem_cons.1 hhandled
    by_cases hnil : seg.data.drop ptr = []
    · rw [hnil] at hdata
      exact ⟨[], u :: units, [], rfl, List.forall_mem_nil _, hnil, hdata, nofun⟩
    by_cases hcmd : u.IsCommand
    · obtain ⟨fuel, rfl⟩ : ∃ n, fuel = n + 1 := by
        rw [List.drop_eq_nil_iff] at hnil
        exact ⟨fuel - 1, by omega⟩
      rw [encode_cons] at hdata
      have hwhole : ∃ rest, seg.data.drop ptr = u.bytes ++ rest ∧ encode units = rest ++ more := by
        rcases List.append_eq_append_iff.1 hdata with ⟨missing, hcut, hmore⟩ | hrest
        · by_cases hmissing : missing = []
          · rw [hmissing, List.append_nil] at hcut
            rw [hmissing, List.nil_append] at hmore
            exact ⟨[], by rw [hcut, List.append_nil], hmore.symm⟩
          · rcases skipLoop_cut hcmd hvalid hplain hnil hmissing hcut rfl fuel reach with
              hbehind | hbehind
            · exact absurd hlen (Nat.not_le.2 hbehind)
            · exact absurd hbound (Nat.not_le.2 hbehind)
        · exact hrest
      obtain ⟨rest, hrest, hunits⟩ := hwhole
      obtain ⟨reach₁, hreach₁, hskip⟩ := skipLoop_command hcmd hvalid hplain hreach hrest fuel
      have htail : seg.data.drop (ptr + u.bytes.length) = rest := by
        rw [← List.drop_drop, hrest, List.drop_left]
      have hpos := List.length_pos_iff.2 u.bytes_ne_nil
      rw [hskip] at hlen hbound
      obtain ⟨commands, units', text, rfl, hcommands, hcut, htext, hhead⟩ :=
        ih hhandled hreach₁ (by omega) (by rw [htail, hunits]) hlen hbound
      refine ⟨u :: commands, units', text, rfl, List.forall_mem_cons.2 ⟨hcmd, hcommands⟩, ?_, htext,
        hhead⟩
      rw [hrest, ← htail, hcut, encode_cons, List.append_assoc]
    · cases u with
      | command verb => exact absurd trivial hcmd
      | option verb opt => exact absurd trivial hcmd
      | sub payload => exact absurd trivial hcmd
      | data b =>
        refine ⟨[], .data b :: units, seg.data.drop ptr, rfl, List.forall_mem_nil _, rfl, hdata, ?_⟩
        obtain ⟨b', rest, hcons⟩ := List.exists_cons_of_ne_nil hnil
        rw [encode_cons, TelnetUnit.bytes, escape_of_ne hplain, hcons] at hdata
        have hb : b' = b := (List.cons.inj hdata).1
        rw [hcons, List.head?_cons, hb]
        exact fun hiac => hplain (Option.some.inj hiac)

theorem exists_data (hhandled : Handled units) (htext : iac ∉ text)
    (hdata : text ++ more = encode units) :
    ∃ units', units = text.map .data ++ units' ∧ more = encode units' := by
  induction text generalizing units with
  | nil => exact ⟨units, rfl, hdata⟩
  | cons b text ih =>
    rw [List.mem_cons, not_or] at htext
    obtain _ | ⟨u, units⟩ := units
    · cases hdata
    · obtain ⟨⟨-, hplain⟩, htail⟩ := List.forall_mem_cons.1 hhandled
      rw [encode_cons] at hdata
      cases u with
      | data b' =>
        rw [TelnetUnit.bytes, escape_of_ne hplain] at hdata
        obtain ⟨hb, hdata⟩ := List.cons.inj hdata
        rw [← hb]
        obtain ⟨units', rfl, hmore⟩ := ih htail htext.2 hdata
        exact ⟨units', rfl, hmore⟩
      | command verb => exact hplain.elim
      | option verb opt => exact absurd (List.cons.inj hdata).1.symm htext.1
      | sub payload => exact absurd (List.cons.inj hdata).1.symm htext.1

end

section

variable {before : UInt8} {text : List UInt8}

theorem shown_append (before : UInt8) (text more : List UInt8) :
    shown before (text ++ more) = shown before text ++ shown (text.getLastD before) more := by
  induction text generalizing before with
  | nil => rfl
  | cons b text ih =>
    rw [List.cons_append, shown, ih, shown, List.getLastD_cons]
    rfl

theorem length_shown (before : UInt8) (text : List UInt8) :
    (shown before text).length = text.length := by
  induction text generalizing before with
  | nil => rfl
  | cons b text ih => rw [shown, List.length_cons, ih, List.length_cons]

theorem iac_mem_shown (before : UInt8) : iac ∈ shown before text ↔ iac ∈ text := by
  induction text generalizing before with
  | nil => rfl
  | cons b text ih =>
    rw [shown, List.mem_cons, List.mem_cons, ih]
    have hfirst : (iac = if b = 0 then if before = CR then LF else 32 else b) ↔ iac = b := by
      split_ifs with hzero hreturn
      · rw [hzero]
        decide
      · rw [hzero]
        decide
      · rfl
    rw [hfirst]

theorem shown_zero_iff : shown 0 text = shown before text ↔
    ¬ (before = CR ∧ text.head? = some 0) := by
  cases text with
  | nil => simp [shown]
  | cons b text =>
    have hzero : (0 : UInt8) ≠ CR := by decide
    have hspace : (32 : UInt8) ≠ LF := by decide
    rw [shown, shown, List.cons_eq_cons, and_iff_left rfl, List.head?_cons, if_neg hzero]
    by_cases hb : b = 0
    · by_cases hreturn : before = CR
      · simp [hb, hreturn, hspace]
      · simp [hb, hreturn]
    · simp [hb]

theorem convertZerosFrom_eq {b c : UInt8} (hreturn : b = CR ↔ c = CR) :
    convertZerosFrom (some b) text = shown c text := by
  induction text generalizing b c with
  | nil => rfl
  | cons d text ih =>
    rw [convertZerosFrom, shown]
    simp only [Option.some.injEq, hreturn]
    congr 1
    refine ih ?_
    split_ifs with hzero hc
    · rw [hzero]
      decide
    · rw [hzero]
      decide
    · rfl

theorem convertZeros_eq (text : List UInt8) : convertZeros text = shown 0 text := by
  have hstart : convertZerosFrom none text = convertZerosFrom (some 0) text := by
    cases text with
    | nil => rfl
    | cons b text => rfl
  rw [convertZeros, hstart]
  exact convertZerosFrom_eq Iff.rfl

end

theorem doContentProcess_commands {seg : Segment} {commands : List TelnetUnit} {text : List UInt8}
    (hcommands : ∀ u ∈ commands, u.IsCommand) (hhandled : Handled commands)
    (hdata : seg.data = encode commands ++ text) (htext : text.head? ≠ some iac) :
    doContentProcess seg = shown 0 text ∧ InBounds seg := by
  have hlen := congrArg List.length hdata
  rw [List.length_append] at hlen
  obtain ⟨reach, hreach, hskip⟩ : ∃ reach ≤ seg.data.length,
      skipLoop seg seg.data.length 0 0 = ⟨0 + (encode commands).length, reach⟩ :=
    skipLoop_commands hcommands hhandled (Nat.zero_le _) (Nat.le_add_left _ _) hdata htext
  have hoffset : (skipCommand seg).len = (encode commands).length := by
    rw [skipCommand, hskip, Nat.zero_add]
  refine ⟨?_, by omega, by rwa [skipCommand, hskip]⟩
  rw [doContentProcess]
  split_ifs with hnil
  · rw [hnil] at hdata
    rw [(List.append_eq_nil_iff.1 hdata.symm).2]
    rfl
  · simp only [hoffset]
    split_ifs with hsome
    · rw [hdata, List.drop_left, convertZeros_eq]
    · have hempty : text = [] := List.length_eq_zero_iff.1 (by omega)
      rw [hempty]
      rfl

theorem text_commands {commands : List TelnetUnit} (hcommands : ∀ u ∈ commands, u.IsCommand) :
    commands.flatMap TelnetUnit.text = [] := by
  rw [List.flatMap_eq_nil_iff]
  intro u hu
  cases u with
  | data b => exact (hcommands _ hu).elim
  | command verb => rfl
  | option verb opt => rfl
  | sub payload => rfl

theorem text_data (text : List UInt8) :
    (text.map TelnetUnit.data).flatMap TelnetUnit.text = text := by
  rw [List.flatMap_map]
  exact List.flatMap_singleton' text

theorem head_ne_iac {text : List UInt8} (htext : iac ∉ text) : text.head? ≠ some iac :=
  fun hhead => htext (List.mem_of_head? hhead)

theorem filtered_of_aligned {before : UInt8} {units : List TelnetUnit} {pieces : List Segment}
    (haligned : Aligned before units pieces) (hhandled : Handled units) :
    contentFile pieces = shown before (units.flatMap TelnetUnit.text) ∧ ∀ seg ∈ pieces,
      InBounds seg := by
  induction haligned with
  | nil => exact ⟨rfl, List.forall_mem_nil _⟩
  | @piece before commands units text seg pieces hcommands hdata htext hzero _ ih =>
    obtain ⟨hcmds, hrest⟩ := List.forall_mem_append.1 hhandled
    obtain ⟨hseg, hbounds⟩ := doContentProcess_commands hcommands hcmds hdata (head_ne_iac htext)
    obtain ⟨hfile, hall⟩ := ih (List.forall_mem_append.1 hrest).2
    refine ⟨?_, List.forall_mem_cons.2 ⟨hbounds, hall⟩⟩
    rw [contentFile, List.flatMap_cons, hseg, shown_zero_iff.2 hzero, List.flatMap_append,
      text_commands hcommands, List.nil_append, List.flatMap_append, text_data, shown_append,
        ← hfile]
    rfl

theorem aligned_of_filtered {before : UInt8} {units : List TelnetUnit} {pieces : List Segment}
    (hhandled : Handled units) (hpieces : pieces.flatMap Segment.data = encode units)
    (hfile : contentFile pieces = shown before (units.flatMap TelnetUnit.text))
    (hbounds : ∀ seg ∈ pieces, InBounds seg) : Aligned before units pieces := by
  induction pieces generalizing before units with
  | nil =>
    cases units with
    | nil => exact .nil
    | cons u units =>
      rw [encode_cons] at hpieces
      exact absurd (List.append_eq_nil_iff.1 hpieces.symm).1 u.bytes_ne_nil
  | cons seg pieces ih =>
    obtain ⟨⟨hlen, hreach⟩, hbounds⟩ := List.forall_mem_cons.1 hbounds
    rw [List.flatMap_cons] at hpieces
    obtain ⟨commands, units', text, rfl, hcommands, hdata, hunits, hhead⟩ :=
      exists_commands hhandled (Nat.zero_le _) (Nat.le_add_left _ 0) hpieces hlen hreach
    obtain ⟨hcmds, hrest⟩ := List.forall_mem_append.1 hhandled
    rw [List.drop_zero] at hdata
    have hseg := (doContentProcess_commands hcommands hcmds hdata hhead).1
    rw [contentFile, List.flatMap_cons, hseg, List.flatMap_append, text_commands hcommands,
      List.nil_append] at hfile
    -- the content has no byte that could start a command, so the piece has stored none
    have htext : iac ∉ text := by
      intro hiac
      have hmem := List.mem_append_left (contentFile pieces) ((iac_mem_shown 0).2 hiac)
      rw [contentFile, hfile, iac_mem_shown, List.mem_flatMap] at hmem
      obtain ⟨u, hu, hmem⟩ := hmem
      have hplain := (hrest u hu).2
      cases u with
      | data b => exact hplain (List.mem_singleton.1 hmem).symm
      | command verb => exact hplain.elim
      | option verb opt => cases hmem
      | sub payload => cases hmem
    obtain ⟨units'', rfl, hmore⟩ := exists_data hrest htext hunits
    rw [List.flatMap_append, text_data, shown_append] at hfile
    obtain ⟨hstart, hfile⟩ := List.append_inj hfile (by rw [length_shown, length_shown])
    exact .piece hcommands hdata htext (shown_zero_iff.1 hstart)
      (ih (List.forall_mem_append.1 hrest).2 hmore hfile hbounds)

/-- A stream is filtered where it is plain and each piece is commands and then data, and a plain one
is filtered in no other case. -/
theorem filtered_iff_aligned {units : List TelnetUnit} {pieces : List Segment}
    (hvalid : ∀ u ∈ units, u.Valid) (hpieces : pieces.flatMap Segment.data = encode units) :
    ((∀ u ∈ units, u.Plain) ∧ Aligned 0 units pieces → Filtered units pieces) ∧
      ((∀ u ∈ units, u.Plain) → Filtered units pieces → Aligned 0 units pieces) := by
  constructor
  · rintro ⟨hplain, haligned⟩
    exact filtered_of_aligned haligned fun u hu => ⟨hvalid u hu, hplain u hu⟩
  · rintro hplain ⟨hfile, hbounds⟩
    exact aligned_of_filtered (fun u hu => ⟨hvalid u hu, hplain u hu⟩) hpieces hfile hbounds

def piece (data : List UInt8) : Segment := ⟨data, fun _ => 0⟩

def loginUnits : List TelnetUnit :=
  [.option 251 1, .data 97, .data CR, .data 0, .sub [24, 1], .data 98]

def loginPieces : List Segment :=
  [piece [iac, 251, 1, 97, CR, 0], piece [iac, sb, 24, 1, iac, se, 98]]

theorem loginPieces_filtered : Filtered loginUnits loginPieces ∧
    Aligned 0 loginUnits loginPieces := by
  have hecho : ∀ u ∈ [TelnetUnit.option 251 1], u.IsCommand := List.forall_mem_singleton.2 trivial
  have hterminal : ∀ u ∈ [TelnetUnit.sub [24, 1]], u.IsCommand :=
    List.forall_mem_singleton.2 trivial
  have hfirst : iac ∉ [97, CR, 0] := by decide
  have hsecond : iac ∉ [98] := by decide
  have haligned : Aligned 0 loginUnits loginPieces :=
    .piece hecho rfl hfirst (by decide) (.piece hterminal rfl hsecond (by decide) .nil)
  have hvalid : ∀ u ∈ loginUnits, u.Valid := by simp [loginUnits, TelnetUnit.Valid]
  have hplain : ∀ u ∈ loginUnits, u.Plain := by simp [loginUnits, TelnetUnit.Plain, iac, CR]
  have hfiltered := (filtered_iff_aligned hvalid rfl).1 ⟨hplain, haligned⟩
  exact ⟨hfiltered, (filtered_iff_aligned hvalid rfl).2 hplain hfiltered⟩

/-- An option behind data is stored as it is. -/
theorem optionBehindData_not_filtered :
    [piece [97, iac, 251, 1, 98]].flatMap Segment.data = encode
    [.data 97, .option 251 1, .data 98] ∧
      ¬ Filtered [.data 97, .option 251 1, .data 98] [piece [97, iac, 251, 1, 98]] := by
  refine ⟨by decide, ?_⟩
  rintro ⟨hfile, -⟩
  revert hfile
  decide

/-- With an escape in a payload the mistakes of two pieces can make up for one another. -/
example :
    Filtered [.sub [iac, 99], .data 99] [piece [iac, sb, iac, iac, 99], piece [iac, se, 99]] :=
  ⟨by decide, by simp only [InBounds]; decide⟩

end CloudHands.Telnet
