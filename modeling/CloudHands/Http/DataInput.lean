import Mathlib.Tactic

/-!
# Line reader over the buffered input

`tcp/session/ch_pp_data_input.h`: the bytes left over by the last piece stand before the
bytes of the new one, and lines are cut off the front at their line feed.
-/

namespace CloudHands.Http

def CR : UInt8 := 13
def LF : UInt8 := 10

/-- `ch_pp_din_read_prefare`: what is read is the remaining data followed by the piece. -/
def readPrefare (remain data : List UInt8) : List UInt8 := remain ++ data

/-- `ch_pp_data_input_line_read`: the raw line with its line feed, and the bytes behind it. -/
def lineRead : List UInt8 → Option (List UInt8 × List UInt8)
  | [] => none
  | b :: din =>
    if b = LF then some ([b], din)
    else
      match lineRead din with
      | none => none
      | some (line, rest) => some (b :: line, rest)

def lineLen (raw : List UInt8) : ℕ :=
  let len := raw.length - 1
  if 0 < len ∧ raw[len - 1]? = some CR then len - 1 else len

theorem lineRead_eq_none {din : List UInt8} : lineRead din = none ↔ LF ∉ din := by
  induction din with
  | nil => simp [lineRead]
  | cons b din ih =>
    rw [lineRead]
    split
    · rename_i hb
      simp [hb]
    · rename_i hb
      cases h : lineRead din with
      | none => simpa [h, Ne.symm hb] using ih.1 h
      | some p =>
        have hmem : LF ∈ din := by
          by_contra hnot
          rw [ih.2 hnot] at h
          simp at h
        simp [hmem]

theorem lineRead_eq_some {din line rest : List UInt8} (h : lineRead din = some (line, rest)) :
    ∃ text, LF ∉ text ∧ line = text ++ [LF] ∧ din = line ++ rest := by
  induction din generalizing line with
  | nil => simp [lineRead] at h
  | cons b din ih =>
    rw [lineRead] at h
    split at h
    · rename_i hb
      obtain ⟨rfl, rfl⟩ : [b] = line ∧ din = rest := by simpa using h
      exact ⟨[], by simp, by simp [hb], rfl⟩
    · rename_i hb
      cases hd : lineRead din with
      | none => simp [hd] at h
      | some p =>
        obtain ⟨line', rest'⟩ := p
        simp only [hd, Option.some.injEq, Prod.mk.injEq] at h
        obtain ⟨rfl, rfl⟩ := h
        obtain ⟨text, htext, rfl, rfl⟩ := ih hd
        exact ⟨b :: text, by simp [htext, Ne.symm hb], by simp, by simp⟩

theorem lineRead_text {text : List UInt8} (htext : LF ∉ text) (rest : List UInt8) :
    lineRead (text ++ LF :: rest) = some (text ++ [LF], rest) := by
  induction text with
  | nil => rfl
  | cons b text ih =>
    have hb : b ≠ LF := fun heq => htext (heq ▸ List.mem_cons_self)
    have hmem : LF ∉ text := fun hmem => htext (List.mem_cons_of_mem b hmem)
    rw [List.cons_append, lineRead, if_neg hb, ih hmem]
    rfl

end CloudHands.Http
