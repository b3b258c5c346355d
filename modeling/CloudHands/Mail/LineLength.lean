import CloudHands.Mail.Line

/-!
# The lengths of mail lines

`ch_mail_get_line` with its lengths in `int32_t`, which `Mail.Line` leaves unbounded. A step that
C does not define, or whose memory cannot be had, has no result.
-/

namespace CloudHands.Mail.LineLength

open Lib Http

/-- The value of a length as an `int32_t`. -/
def toInt32 (n : ℤ) : ℤ := (n + 2 ^ 31) % 2 ^ 32 - 2 ^ 31

/-- The difference in `int32_t`, unless it overflows. -/
def sub32 (n : ℤ) (k : ℕ) : Option ℤ := if n - k < -2 ^ 31 then none else some (n - k)

/-- `ch_mail_tx_buf_t`. -/
structure TxBuf where
  db : List UInt8
  dbLen : ℤ
  currentLineDb : Bool
  currentLineLfSeen : Bool

def TxBuf.init : TxBuf := ⟨[], 0, false, false⟩

/-- `ch_mail_curr_line_t`, with the memory that `data` points to. -/
structure CurrLine where
  data : List UInt8
  len : ℤ
  delimiterLen : ℕ

/-- The bytes of a line; there are none with a negative length. -/
def CurrLine.line (l : CurrLine) : Option Mail.CurrLine :=
  if l.len < 0 then none else some ⟨l.data.take l.len.toNat, l.delimiterLen⟩

def TxBuf.clean (buf : TxBuf) : TxBuf :=
  if buf.currentLineLfSeen then
    if buf.currentLineDb then ⟨[], 0, false, false⟩ else { buf with currentLineLfSeen := false }
  else buf

/-- `SCRealloc` and `memcpy`. With a negative `db_len` more is asked for than there are addresses,
or the bytes are written in front of the block. -/
def TxBuf.append (buf : TxBuf) (data : List UInt8) : Option TxBuf :=
  if buf.dbLen < 0 then none
  else
    some
      { buf with
        db := buf.db.take buf.dbLen.toNat ++ data
        dbLen := toInt32 (buf.dbLen + data.length) }

/-- `ch_mail_get_line`. -/
def getLine (input : List UInt8) (buf : TxBuf) : Option (Option CurrLine × List UInt8 × TxBuf) :=
  if input = [] then some (none, [], buf)
  else
    let buf := buf.clean
    match input.idxOf? LF with
    | none =>
      if buf.currentLineDb then (buf.append input).map fun buf => (none, [], buf)
      else
        some (none, [],
          { buf with db := input, dbLen := toInt32 input.length, currentLineDb := true })
    | some lfIdx =>
      let rest := input.drop (lfIdx + 1)
      if buf.currentLineDb then do
        let buf ← buf.append (input.take (lfIdx + 1))
        let delimiterLen : ℕ :=
          if 1 < buf.dbLen ∧ buf.db[(buf.dbLen - 2).toNat]? = some CR then 2 else 1
        let dbLen ← sub32 buf.dbLen delimiterLen
        some (some ⟨buf.db, dbLen, delimiterLen⟩, rest,
          { buf with dbLen := dbLen, currentLineLfSeen := true })
      else do
        let delimiterLen : ℕ := if lfIdx ≠ 0 ∧ input[lfIdx - 1]? = some CR then 2 else 1
        let len ← sub32 (toInt32 lfIdx) (delimiterLen - 1)
        some (some ⟨input, len, delimiterLen⟩, rest, { buf with currentLineLfSeen := true })

/-- Calls `ch_mail_get_line` until it returns -1. -/
def lineLoop : ℕ → List UInt8 → TxBuf → Option (List Mail.CurrLine × TxBuf)
  | 0, _, _ => none
  | fuel + 1, input, buf =>
    match getLine input buf with
    | none => none
    | some (none, _, buf) => some ([], buf)
    | some (some l, rest, buf) => do
      let line ← l.line
      let (lines, buf) ← lineLoop fuel rest buf
      some (line :: lines, buf)

def feed (w : List Mail.CurrLine × TxBuf) (piece : List UInt8) :
    Option (List Mail.CurrLine × TxBuf) :=
  (lineLoop (piece.length + 1) piece w.2).map fun r => (w.1 ++ r.1, r.2)

def TxBuf.carried (buf : TxBuf) : Option (List UInt8) :=
  if buf.clean.currentLineDb then
    if buf.clean.dbLen < 0 then none else some (buf.clean.db.take buf.clean.dbLen.toNat)
  else some []

/-- The pieces give the lines of the whole stream, and the bytes behind the last are carried
over. -/
def Splits (pieces : List (List UInt8)) : Prop :=
  ∃ buf, pieces.foldlM feed ([], .init) = some ((linesOf pieces.flatten).1, buf) ∧
    buf.carried = some (linesOf pieces.flatten).2

def Short (held : List UInt8) : List (List UInt8) → Prop
  | [] => True
  | text :: texts => text.length + (if held = [] then 0 else 1) < 2 ^ 31 ∧ Short [] texts

/-- Every line is short, and what is carried over in the end has less than 2 ^ 31 bytes. -/
def AllShort : List UInt8 → List (List UInt8) → Prop
  | held, [] => held.length < 2 ^ 31
  | held, piece :: pieces =>
    Short held (cutLines LF (held ++ piece)).1 ∧ AllShort (cutLines LF (held ++ piece)).2 pieces

def connLines (curBuf : Side → TxBuf) :
    List (Side × List UInt8) → Option (List (Side × Mail.CurrLine))
  | [] => some []
  | (side, data) :: segs => do
    let (lines, buf) ← lineLoop (data.length + 1) data (curBuf side)
    let rest ← connLines (Function.update curBuf side buf) segs
    some (lines.map (side, ·) ++ rest)

def ConnShort (held : Side → List UInt8) : List (Side × List UInt8) → Prop
  | [] => True
  | (side, data) :: segs =>
    Short (held side) (cutLines LF (held side ++ data)).1 ∧
      (cutLines LF (held side ++ data)).2.length < 2 ^ 31 ∧
      ConnShort (Function.update held side (cutLines LF (held side ++ data)).2) segs

theorem toInt32_of_lt {n : ℕ} (h : n < 2 ^ 31) : toInt32 n = n := by
  unfold toInt32
  omega

theorem toInt32_le {n : ℕ} (h : 2 ^ 31 ≤ n) : toInt32 n ≤ n - 2 ^ 32 := by
  unfold toInt32
  omega

def TxBuf.Stored (buf : TxBuf) (held : List UInt8) : Prop :=
  (held.length < 2 ^ 31 ∧ buf.dbLen = held.length ∧ buf.db = held) ∨
    (2 ^ 31 ≤ held.length ∧ buf.dbLen ≤ held.length - 2 ^ 32)

structure TxBuf.Holds (buf : TxBuf) (held : List UInt8) : Prop where
  flag : buf.clean.currentLineDb = decide (held ≠ [])
  stored : held ≠ [] → buf.clean.Stored held

theorem holds_init : TxBuf.init.Holds [] := ⟨rfl, fun h => absurd rfl h⟩

theorem TxBuf.clean_lfSeen (buf : TxBuf) : buf.clean.currentLineLfSeen = false := by
  unfold clean
  split
  · split <;> rfl
  · rename_i h
    simpa using h

theorem TxBuf.clean_of_lfSeen {buf : TxBuf} (h : buf.currentLineLfSeen = false) : buf.clean = buf :=
  if_neg (by simp [h])

theorem holds_of_lfSeen {buf : TxBuf} (h : buf.currentLineLfSeen = true) : buf.Holds [] := by
  refine ⟨?_, fun hne => absurd rfl hne⟩
  rw [TxBuf.clean, if_pos h]
  cases hdb : buf.currentLineDb with
  | true => rfl
  | false => simp

variable {buf : TxBuf} {held : List UInt8}

theorem TxBuf.Holds.carried_iff (h : buf.Holds held) : buf.carried = some held ↔
    held.length < 2 ^ 31 := by
  by_cases hne : held = []
  · subst hne
    rw [TxBuf.carried, h.flag]
    exact iff_of_true rfl (by decide)
  · rw [TxBuf.carried, if_pos (h.flag.trans (decide_eq_true hne))]
    rcases h.stored hne with ⟨hshort, hlen, hdb⟩ | ⟨hlong, hlen⟩
    · refine iff_of_true ?_ hshort
      rw [if_neg (by omega), hlen, hdb, Int.toNat_natCast, List.take_length]
    · refine iff_of_false (fun heq => ?_) (by omega)
      split_ifs at heq
      have hlength := congrArg List.length (Option.some.inj heq)
      rw [List.length_take] at hlength
      omega

theorem TxBuf.Stored.append (h : buf.Stored held) (hclean : buf.currentLineDb = true)
    (data : List UInt8) :
    (buf.append data = none ∧ 2 ^ 31 ≤ held.length) ∨
      ∃ buf', buf.append data = some buf' ∧ buf'.Stored (held ++ data) ∧
        buf'.currentLineDb = true ∧ buf'.currentLineLfSeen = buf.currentLineLfSeen := by
  rw [TxBuf.append]
  by_cases hneg : buf.dbLen < 0
  · rw [if_pos hneg]
    rcases h with ⟨-, hlen, -⟩ | ⟨hlong, -⟩
    · omega
    · exact .inl ⟨rfl, hlong⟩
  · rw [if_neg hneg]
    refine .inr ⟨_, rfl, ?_, hclean, rfl⟩
    rw [TxBuf.Stored, List.length_append]
    rcases h with ⟨-, hlen, hdb⟩ | ⟨hlong, hlen⟩
    · have hsum : buf.dbLen + data.length = (held.length + data.length : ℕ) := by
        rw [hlen, Nat.cast_add]
      dsimp only
      rw [hsum]
      by_cases hshort : held.length + data.length < 2 ^ 31
      · refine .inl ⟨hshort, toInt32_of_lt hshort, ?_⟩
        rw [hlen, hdb, Int.toNat_natCast, List.take_length]
      · exact .inr ⟨not_lt.1 hshort, toInt32_le (not_lt.1 hshort)⟩
    · refine .inr ⟨by omega, ?_⟩
      dsimp only
      unfold toInt32
      omega

theorem getLine_of_not_mem {input : List UInt8} (hlf : LF ∉ input) (hne : input ≠ [])
    (h : buf.Holds held) :
    (getLine input buf = none ∧ 2 ^ 31 ≤ held.length) ∨
      ∃ buf', getLine input buf = some (none, [], buf') ∧ buf'.Holds (held ++ input) := by
  have hidx : input.idxOf? LF = none := List.idxOf?_eq_none_iff.2 hlf
  have hlong : held ++ input ≠ [] := by simp [hne]
  by_cases hheld : held = []
  · subst hheld
    have hflag : buf.clean.currentLineDb = false := h.flag
    have hget : getLine input buf = some (none, [],
        { buf.clean with db := input, dbLen := toInt32 input.length, currentLineDb := true }) := by
      simp only [getLine, hne, if_false, hidx, hflag]
      rfl
    refine .inr ⟨_, hget, ?_⟩
    have hclean := @TxBuf.clean_of_lfSeen
      { buf.clean with db := input, dbLen := toInt32 input.length, currentLineDb := true }
      buf.clean_lfSeen
    refine ⟨?_, fun _ => ?_⟩
    · rw [hclean, List.nil_append, decide_eq_true hne]
    · rw [hclean, List.nil_append]
      by_cases hshort : input.length < 2 ^ 31
      · exact .inl ⟨hshort, toInt32_of_lt hshort, rfl⟩
      · exact .inr ⟨not_lt.1 hshort, toInt32_le (not_lt.1 hshort)⟩
  · have hflag : buf.clean.currentLineDb = true := h.flag.trans (decide_eq_true hheld)
    have hget : getLine input buf = (buf.clean.append input).map fun buf => (none, [], buf) := by
      simp only [getLine, hne, if_false, hidx, hflag, if_true]
    rcases (h.stored hheld).append hflag input with ⟨hnone, hlen⟩ |
      ⟨buf', hsome, hstored, hdb, hseen⟩
    · exact .inl ⟨by rw [hget, hnone]; rfl, hlen⟩
    · have hclean := TxBuf.clean_of_lfSeen (hseen.trans buf.clean_lfSeen)
      refine .inr ⟨buf', by rw [hget, hsome]; rfl, ?_, fun _ => by rwa [hclean]⟩
      rw [hclean, hdb, decide_eq_true hlong]

theorem lineOf_eq (text : List UInt8) :
    lineOf text = if text.getLast? = some CR then ⟨text.dropLast, 2⟩ else ⟨text, 1⟩ := by
  cases text using List.reverseRecOn with
  | nil => rfl
  | append_singleton text b _ =>
    rw [List.getLast?_concat, List.dropLast_concat]
    by_cases hb : b = CR
    · subst hb
      rw [if_pos rfl]
      exact lineOf_of_crlf text
    · rw [if_neg (by simpa using hb)]
      simp [lineOf, stripDelimiter, hb, List.take_append]

theorem getLast?_eq_cr_iff (text rest : List UInt8) :
    (text.length ≠ 0 ∧ (text ++ rest)[text.length - 1]? = some CR) ↔ text.getLast? = some CR := by
  cases text using List.reverseRecOn with
  | nil => simp
  | append_singleton text b _ => simp

def delimiterOf (text : List UInt8) : ℕ := if text.getLast? = some CR then 2 else 1

theorem delimiterOf_le (text : List UInt8) : 1 ≤ delimiterOf text ∧ delimiterOf text ≤ 2 := by
  unfold delimiterOf
  split <;> decide

theorem line_of_length (text rest : List UInt8) :
    (CurrLine.mk (text ++ rest) (text.length + 1 - delimiterOf text) (delimiterOf text)).line =
      some (lineOf text) := by
  rw [lineOf_eq, delimiterOf]
  cases text using List.reverseRecOn with
  | nil => rfl
  | append_singleton text b _ =>
    rw [List.getLast?_concat, List.dropLast_concat, List.length_append, List.length_singleton]
    by_cases hb : b = CR
    · have hlen : ((text.length + 1 : ℕ) : ℤ) + 1 - (2 : ℕ) = text.length := by omega
      subst hb
      rw [if_pos rfl, if_pos rfl, hlen, CurrLine.line, if_neg (Int.natCast_nonneg _).not_gt,
        Int.toNat_natCast,
        List.append_assoc, List.take_left]
    · have hlen : ((text.length + 1 : ℕ) : ℤ) + 1 - (1 : ℕ) = (text ++ [b]).length := by simp
      have hne : some b ≠ some CR := fun heq => hb (Option.some.inj heq)
      rw [if_neg hne, if_neg hne, hlen, CurrLine.line, if_neg (Int.natCast_nonneg _).not_gt,
        Int.toNat_natCast,
        List.take_left]

theorem line_ne_of_le {l : CurrLine} {text : List UInt8} (h : l.len ≤ text.length - 2) :
    l.line ≠ some (lineOf text) := by
  rw [CurrLine.line]
  split_ifs
  · exact nofun
  · intro heq
    have hlength := congrArg (fun line : Mail.CurrLine => line.data.length) (Option.some.inj heq)
    have hdata : text.length - 1 ≤ (lineOf text).data.length := by
      rw [lineOf_eq]
      split_ifs
      · rw [List.length_dropLast]
      · exact Nat.sub_le _ _
    dsimp only at hlength
    rw [List.length_take] at hlength
    omega

theorem getLine_here {text : List UInt8} (hlf : LF ∉ text) (rest : List UInt8)
    (hflag : buf.clean.currentLineDb = false) :
    (getLine (text ++ LF :: rest) buf = none ∧ 2 ^ 31 ≤ text.length) ∨
      ∃ l buf', getLine (text ++ LF :: rest) buf = some (some l, rest, buf') ∧ buf'.Holds [] ∧
        (l.line = some (lineOf text) ↔ text.length < 2 ^ 31) := by
  have hdrop : (text ++ LF :: rest).drop (text.length + 1) = rest := by
    simp [List.drop_append]
  have hget : getLine (text ++ LF :: rest) buf =
      (sub32 (toInt32 text.length) (delimiterOf text - 1)).map fun len =>
        (some ⟨text ++ LF :: rest, len, delimiterOf text⟩, rest,
          { buf.clean with currentLineLfSeen := true }) := by
    have hne : text ++ LF :: rest ≠ [] := by simp
    simp only [getLine, hne, if_false, idxOf?_line hlf, hflag, hdrop, getLast?_eq_cr_iff,
      Bool.false_eq_true, delimiterOf]
    generalize sub32 _ _ = len
    cases len <;> rfl
  have hdelimiter := delimiterOf_le text
  have hholds : TxBuf.Holds { buf.clean with currentLineLfSeen := true } [] := holds_of_lfSeen rfl
  rw [hget, sub32]
  by_cases hshort : text.length < 2 ^ 31
  · rw [toInt32_of_lt hshort, if_neg (by omega)]
    have hlen : (text.length : ℤ) - (delimiterOf text - 1 : ℕ) =
        text.length + 1 - delimiterOf text := by
      omega
    rw [hlen]
    exact .inr ⟨_, _, rfl, hholds, iff_of_true (line_of_length text _) hshort⟩
  · have hwrapped := toInt32_le (not_lt.1 hshort)
    split_ifs
    · exact .inl ⟨rfl, not_lt.1 hshort⟩
    · exact .inr ⟨_, _, rfl, hholds, iff_of_false (line_ne_of_le (by dsimp only; omega)) hshort⟩

theorem getLine_held {text : List UInt8} (hlf : LF ∉ text) (rest : List UInt8)
    (hflag : buf.clean.currentLineDb = true) (hstored : buf.clean.Stored held) :
    (getLine (text ++ LF :: rest) buf = none ∧ 2 ^ 31 ≤ held.length + text.length + 1) ∨
      ∃ l buf', getLine (text ++ LF :: rest) buf = some (some l, rest, buf') ∧ buf'.Holds [] ∧
        (l.line = some (lineOf (held ++ text)) ↔ held.length + text.length + 1 < 2 ^ 31) := by
  have hdrop : (text ++ LF :: rest).drop (text.length + 1) = rest := by
    simp [List.drop_append]
  have htake : (text ++ LF :: rest).take (text.length + 1) = text ++ [LF] := by
    simp [List.take_append]
  have hne : text ++ LF :: rest ≠ [] := by simp
  rcases hstored.append hflag (text ++ [LF]) with ⟨hnone, hlong⟩ | ⟨buf₁, hsome, hstored₁, -, -⟩
  · have hget : getLine (text ++ LF :: rest) buf = none := by
      simp only [getLine, hne, if_false, idxOf?_line hlf, hflag, if_true, htake, hnone]
      rfl
    exact .inl ⟨hget, by omega⟩
  let delimiterLen : ℕ :=
    if 1 < buf₁.dbLen ∧ buf₁.db[(buf₁.dbLen - 2).toNat]? = some CR then 2 else 1
  have hget : getLine (text ++ LF :: rest) buf =
      (sub32 buf₁.dbLen delimiterLen).map fun dbLen =>
        (some ⟨buf₁.db, dbLen, delimiterLen⟩, rest,
          { buf₁ with dbLen := dbLen, currentLineLfSeen := true }) := by
    simp only [getLine, hne, if_false, idxOf?_line hlf, hflag, if_true, htake, hdrop, hsome,
      Option.bind_eq_bind, Option.bind_some]
    generalize sub32 _ _ = dbLen
    cases dbLen <;> rfl
  have hlength : (held ++ (text ++ [LF])).length = held.length + text.length + 1 := by simp; omega
  rw [TxBuf.Stored, hlength] at hstored₁
  rw [hget, sub32]
  rcases hstored₁ with ⟨hshort, hlen, hdb⟩ | ⟨hlong, hlen⟩
  · have hcount : buf₁.dbLen = (held ++ text).length + 1 := by
      rw [hlen, List.length_append]
      push_cast
      ring
    have hcr : (1 < buf₁.dbLen ∧ buf₁.db[(buf₁.dbLen - 2).toNat]? = some CR) ↔
        (held ++ text).getLast? = some CR := by
      have hindex : (((held ++ text).length : ℤ) + 1 - 2).toNat =
          (held ++ text).length - 1 := by omega
      have hpos : (1 : ℤ) < (held ++ text).length + 1 ↔ (held ++ text).length ≠ 0 := by omega
      rw [hcount, hdb, ← List.append_assoc, hindex, hpos, getLast?_eq_cr_iff]
    have hdelimiterLen : delimiterLen = delimiterOf (held ++ text) := if_congr hcr rfl rfl
    have hdelimiter := delimiterOf_le (held ++ text)
    rw [hdelimiterLen, hcount, if_neg (by omega), hdb, ← List.append_assoc]
    exact .inr ⟨_, _, rfl, holds_of_lfSeen rfl,
      iff_of_true (line_of_length (held ++ text) [LF]) hshort⟩
  · have hnot : ¬ held.length + text.length + 1 < 2 ^ 31 := not_lt.2 hlong
    have hone : 1 ≤ delimiterLen := by
      dsimp only [delimiterLen]
      split <;> decide
    split_ifs
    · exact .inl ⟨rfl, hlong⟩
    · refine .inr ⟨_, _, rfl, holds_of_lfSeen rfl, iff_of_false (line_ne_of_le ?_) hnot⟩
      dsimp only
      rw [List.length_append]
      omega

theorem getLine_line {text : List UInt8} (hlf : LF ∉ text) (rest : List UInt8)
    (h : buf.Holds held) :
    (getLine (text ++ LF :: rest) buf = none ∧
        ¬ (held ++ text).length + (if held = [] then 0 else 1) < 2 ^ 31) ∨
      ∃ l buf', getLine (text ++ LF :: rest) buf = some (some l, rest, buf') ∧ buf'.Holds [] ∧
        (l.line = some (lineOf (held ++ text)) ↔
          (held ++ text).length + (if held = [] then 0 else 1) < 2 ^ 31) := by
  by_cases hheld : held = []
  · subst hheld
    rw [if_pos rfl, List.nil_append, Nat.add_zero, not_lt]
    exact getLine_here hlf rest h.flag
  · rw [if_neg hheld, List.length_append, not_lt]
    exact getLine_held hlf rest (h.flag.trans (decide_eq_true hheld)) (h.stored hheld)

theorem lineLoop_outcome {fuel : ℕ} {input : List UInt8} (hfuel : input.length < fuel)
    (h : buf.Holds held)
    (hheld : LF ∉ held) :
    (lineLoop fuel input buf = none ∧
        (Short held (cutLines LF (held ++ input)).1 →
          2 ^ 31 ≤ (cutLines LF (held ++ input)).2.length)) ∨
      ∃ lines buf', lineLoop fuel input buf = some (lines, buf') ∧
        lines.length = (linesOf (held ++ input)).1.length ∧
        (lines = (linesOf (held ++ input)).1 ↔ Short held (cutLines LF (held ++ input)).1) ∧
        buf'.Holds (linesOf (held ++ input)).2 := by
  induction fuel generalizing input buf held with
  | zero => omega
  | succ fuel ih =>
    rcases line_or_not_mem LF input with ⟨text, rest, htext, rfl⟩ | hmem
    · have hline : LF ∉ held ++ text := by simp [hheld, htext]
      have hlen : rest.length < fuel := by
        simp only [List.length_append, List.length_cons] at hfuel
        omega
      rw [← List.append_assoc, linesOf, cutLines_line hline]
      simp only [List.map_cons, Short]
      rcases getLine_line htext rest h with ⟨hget, hlong⟩ | ⟨l, buf₁, hget, hholds, hright⟩
      · exact .inl ⟨by rw [lineLoop, hget], fun hshort => absurd hshort.1 hlong⟩
      have hloop : lineLoop (fuel + 1) (text ++ LF :: rest) buf =
          l.line.bind fun line => (lineLoop fuel rest buf₁).map fun r => (line :: r.1, r.2) := by
        rw [lineLoop, hget]
        dsimp only
        cases l.line with
        | none => rfl
        | some line => cases lineLoop fuel rest buf₁ <;> rfl
      rw [← hright, hloop]
      cases hl : l.line with
      | none => exact .inl ⟨rfl, fun hshort => by cases hshort.1⟩
      | some line =>
        rcases ih hlen hholds List.not_mem_nil with ⟨hnone, hlong⟩ |
          ⟨lines, buf', hsome, hcount, hlines, hrest⟩
        · exact .inl ⟨by rw [hnone]; rfl, fun hshort => hlong hshort.2⟩
        · refine .inr ⟨line :: lines, buf', by rw [hsome]; rfl, ?_, ?_, hrest⟩
          · rw [List.length_cons, List.length_cons, hcount]
            rfl
          · rw [List.cons.injEq, Option.some.injEq]
            exact and_congr_right fun _ => hlines
    · have hnone : LF ∉ held ++ input := by simp [hheld, hmem]
      rw [linesOf_of_not_mem hnone, cutLines_of_not_mem hnone]
      by_cases hnil : input = []
      · subst hnil
        have hget : getLine [] buf = some (none, [], buf) := if_pos rfl
        refine .inr ⟨[], buf, by rw [lineLoop, hget], rfl, iff_of_true rfl trivial, ?_⟩
        rwa [List.append_nil]
      · rcases getLine_of_not_mem hmem hnil h with ⟨hget, hlong⟩ | ⟨buf', hget, hholds⟩
        · refine .inl ⟨by rw [lineLoop, hget], fun _ => ?_⟩
          rw [List.length_append]
          omega
        · exact .inr ⟨[], buf', by rw [lineLoop, hget], rfl, iff_of_true rfl trivial, hholds⟩

theorem feed_prefix {pieces : List (List UInt8)} {w w' : List Mail.CurrLine × TxBuf}
    (h : pieces.foldlM feed w = some w') : w.1 <+: w'.1 := by
  induction pieces generalizing w with
  | nil =>
    cases h
    exact List.prefix_refl _
  | cons piece pieces ih =>
    rw [List.foldlM_cons] at h
    obtain ⟨w₁, hfeed, hrest⟩ := Option.bind_eq_some_iff.1 h
    obtain ⟨r, -, rfl⟩ := Option.map_eq_some_iff.1 hfeed
    exact (List.prefix_append w.1 r.1).trans (ih hrest)

theorem not_allShort_of_long (hheld : LF ∉ held) (hlong : 2 ^ 31 ≤ held.length)
    (pieces : List (List UInt8)) : ¬ AllShort held pieces := by
  induction pieces generalizing held with
  | nil => exact not_lt.2 hlong
  | cons piece pieces ih =>
    rintro ⟨hshort, hrest⟩
    rcases line_or_not_mem LF piece with ⟨text, rest, htext, rfl⟩ | hmem
    · have hline : LF ∉ held ++ text := by simp [hheld, htext]
      rw [← List.append_assoc, cutLines_line hline] at hshort
      have hbound := hshort.1
      rw [List.length_append] at hbound
      omega
    · have hnone : LF ∉ held ++ piece := by simp [hheld, hmem]
      rw [cutLines_of_not_mem hnone] at hrest
      refine ih hnone ?_ hrest
      rw [List.length_append]
      omega

theorem run_iff (lines : List Mail.CurrLine) (h : buf.Holds held) (hheld : LF ∉ held)
    (pieces : List (List UInt8)) :
    (∃ buf', pieces.foldlM feed (lines, buf) =
          some (lines ++ (linesOf (held ++ pieces.flatten)).1, buf') ∧
        buf'.carried = some (linesOf (held ++ pieces.flatten)).2) ↔ AllShort held pieces := by
  induction pieces generalizing lines buf held with
  | nil =>
    rw [List.flatten_nil, List.append_nil, linesOf_of_not_mem hheld, List.append_nil, AllShort,
      ← h.carried_iff]
    exact ⟨fun ⟨buf', hbuf', hcarried⟩ => by cases hbuf'; exact hcarried, fun hcarried =>
      ⟨buf, rfl, hcarried⟩⟩
  | cons piece pieces ih =>
    have hrest : LF ∉ (linesOf (held ++ piece)).2 := linesOf_rest_not_mem _
    rw [List.flatten_cons, ← List.append_assoc, linesOf_append, List.foldlM_cons, AllShort]
    rcases lineLoop_outcome (Nat.lt_succ_self piece.length) h hheld with
      ⟨hnone, hlong⟩ | ⟨new, buf₁, hsome, hcount, hnew, hholds⟩
    · have hfeed : feed (lines, buf) piece = none := by
        rw [feed, hnone]
        rfl
      rw [hfeed]
      refine iff_of_false (fun ⟨_, hsome, _⟩ => by cases hsome) fun ⟨hshort, hall⟩ => ?_
      exact not_allShort_of_long hrest (hlong hshort) pieces hall
    · have hfeed : feed (lines, buf) piece = some (lines ++ new, buf₁) := by
        rw [feed, hsome]
        rfl
      rw [hfeed]
      by_cases hright : new = (linesOf (held ++ piece)).1
      · rw [and_iff_right (hnew.1 hright), hright, ← List.append_assoc]
        exact ih (lines ++ (linesOf (held ++ piece)).1) hholds hrest
      · refine iff_of_false ?_ fun hall => hright (hnew.2 hall.1)
        rintro ⟨buf', hrun, -⟩
        have hprefix := feed_prefix hrun
        dsimp only at hprefix
        rw [List.prefix_append_right_inj] at hprefix
        exact hright
          ((List.prefix_of_prefix_length_le hprefix (List.prefix_append _ _) hcount.le).eq_of_length
          hcount)

/-- The pieces of a stream give its lines exactly when all lengths fit into an `int32_t`. -/
theorem splits_iff_allShort (pieces : List (List UInt8)) : Splits pieces ↔ AllShort [] pieces :=
  run_iff [] holds_init List.not_mem_nil pieces

theorem connLines_eq {curBuf : Side → TxBuf} {held : Side → List UInt8}
    {segs : List (Side × List UInt8)} (hholds : ∀ side, (curBuf side).Holds (held side))
    (hheld : ∀ side, LF ∉ held side) (hshort : ConnShort held segs) :
    connLines curBuf segs = some (lineEvents held segs) := by
  induction segs generalizing curBuf held with
  | nil => rfl
  | cons seg segs ih =>
    obtain ⟨side, data⟩ := seg
    obtain ⟨hlines, hrest, hsegs⟩ := hshort
    rcases lineLoop_outcome (Nat.lt_succ_self data.length) (hholds side) (hheld side) with
      ⟨-, hlong⟩ | ⟨lines, buf', hsome, -, hright, hnext⟩
    · exact absurd (hlong hlines) (not_le.2 hrest)
    have hholds' : ∀ side', (Function.update curBuf side buf' side').Holds
        (Function.update held side (linesOf (held side ++ data)).2 side') := by
      intro side'
      by_cases hside : side' = side
      · subst hside
        rw [Function.update_self, Function.update_self]
        exact hnext
      · rw [Function.update_of_ne hside, Function.update_of_ne hside]
        exact hholds side'
    have hheld' : ∀ side',
        LF ∉ Function.update held side (linesOf (held side ++ data)).2 side' :=
      (Function.forall_update_iff held fun _ bytes => LF ∉ bytes).2
        ⟨linesOf_rest_not_mem _, fun side' _ => hheld side'⟩
    have hloop : lineLoop (data.length + 1) data (curBuf side) =
        some ((linesOf (held side ++ data)).1, buf') := by
      rw [hsome, hright.2 hlines]
    have hsegs' := ih hholds' hheld' hsegs
    simp only [connLines, hloop, hsegs', lineEvents, Option.bind_eq_bind, Option.bind_some]

theorem run_of_short {S : Type*} (handle : Side → S → Mail.CurrLine → Option S) (s : S)
    {segs : List (Side × List UInt8)} (hshort : ConnShort (fun _ => []) segs) :
    ∃ lines, connLines (fun _ => .init) segs = some lines ∧
      ((MailConn.init s).run handle segs).map (·.entry) =
        lines.foldlM (fun s ev => handle ev.1 s ev.2) s :=
  ⟨_, connLines_eq (fun _ => holds_init) (fun _ => List.not_mem_nil) hshort,
    run_init handle s segs⟩

theorem exists_line (n : ℕ) : ∃ text : List UInt8, LF ∉ text ∧ text.length = n :=
  ⟨List.replicate n 97, fun hmem => absurd (List.eq_of_mem_replicate hmem) (by decide),
    List.length_replicate⟩

/-- The line feed of 2 ^ 31 - 1 bytes comes in a piece of its own. -/
theorem longLine_not_split : ¬ ∀ pieces : List (List UInt8), Splits pieces := by
  intro h
  obtain ⟨text, hlf, hlen⟩ := exists_line (2 ^ 31 - 1)
  obtain ⟨-, hlast⟩ := (run_iff [] holds_init List.not_mem_nil [text, [LF]]).1 (h [text, [LF]])
  rw [List.nil_append, cutLines_of_not_mem hlf] at hlast
  have hbound := hlast.1
  rw [cutLines_line hlf] at hbound
  have hheld : text ≠ [] := by
    rintro rfl
    simp at hlen
  have hshort := hbound.1
  rw [if_neg hheld] at hshort
  omega

end CloudHands.Mail.LineLength
