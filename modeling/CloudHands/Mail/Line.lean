import CloudHands.Http.Session
import CloudHands.Lib.Lines

/-!
# Lines of a mail connection

`ch_mail_get_line` of `ch_mail_common.c` and the loop of the parsers over it. The segments
of the two directions arrive in any order; each direction has its own line buffer.
-/

namespace CloudHands.Mail

open Lib Http

/-- `ch_mail_tx_buf_t`; the length of `db` is that of the list. -/
structure TxBuf where
  db : List UInt8
  currentLineDb : Bool
  currentLineLfSeen : Bool
  deriving DecidableEq, Repr

def TxBuf.init : TxBuf := ⟨[], false, false⟩

/-- `ch_mail_curr_line_t`. -/
structure CurrLine where
  data : List UInt8
  delimiterLen : ℕ
  deriving DecidableEq, Repr

def CurrLine.bytes (line : CurrLine) : List UInt8 :=
  line.data ++ if line.delimiterLen = 2 then [CR, LF] else [LF]

def stripDelimiter (raw : List UInt8) : CurrLine :=
  if 1 < raw.length ∧ raw[raw.length - 2]? = some CR then ⟨raw.take (raw.length - 2), 2⟩
  else ⟨raw.take (raw.length - 1), 1⟩

def TxBuf.clean (buf : TxBuf) : TxBuf :=
  if buf.currentLineLfSeen then
    if buf.currentLineDb then ⟨[], false, false⟩ else { buf with currentLineLfSeen := false }
  else buf

/-- `ch_mail_get_line`: the line unless it returns -1, what is left of the input, the buffer. -/
def getLine (input : List UInt8) (buf : TxBuf) : Option CurrLine × List UInt8 × TxBuf :=
  if input = [] then (none, [], buf)
  else
    let buf := buf.clean
    match input.idxOf? LF with
    | none =>
      (none, [], { buf with currentLineDb := true
                            db := if buf.currentLineDb then buf.db ++ input else input })
    | some lfIdx =>
      if buf.currentLineDb then
        let line := stripDelimiter (buf.db ++ input.take (lfIdx + 1))
        (some line, input.drop (lfIdx + 1), { buf with db := line.data, currentLineLfSeen := true })
      else
        (some (stripDelimiter (input.take (lfIdx + 1))), input.drop (lfIdx + 1),
          { buf with currentLineLfSeen := true })

section

variable {S : Type*}

/-- The loop of `smtp_parse` and `pop3_parse` over the lines of the input, none when a line
breaks it. -/
def lineLoop (handle : S → CurrLine → Option S) : ℕ → List UInt8 → TxBuf → S → Option (S × TxBuf)
  | 0, _, _, _ => none
  | fuel + 1, input, buf, s =>
    match getLine input buf with
    | (none, _, buf') => some (s, buf')
    | (some line, rest, buf') => (handle s line).bind (lineLoop handle fuel rest buf')

def TxBuf.held (buf : TxBuf) : List UInt8 :=
  if buf.currentLineLfSeen then [] else if buf.currentLineDb then buf.db else []

def lineOf (text : List UInt8) : CurrLine := stripDelimiter (text ++ [LF])

/-- The lines that end in the stream, and what is held of the next one. -/
def linesOf (s : List UInt8) : List CurrLine × List UInt8 :=
  ((cutLines LF s).1.map lineOf, (cutLines LF s).2)

@[simp] theorem TxBuf.held_init : TxBuf.init.held = [] := rfl

theorem TxBuf.held_clean (buf : TxBuf) :
    buf.held = if buf.clean.currentLineDb then buf.clean.db else [] := by
  unfold held clean
  by_cases hlf : buf.currentLineLfSeen <;> by_cases hdb : buf.currentLineDb <;> simp [hlf, hdb]

theorem lineOf_of_crlf (text : List UInt8) : lineOf (text ++ [CR]) = ⟨text, 2⟩ := by
  simp [lineOf, stripDelimiter]

theorem getLine_of_not_mem {input : List UInt8} (h : LF ∉ input) (buf : TxBuf) :
    ∃ buf', getLine input buf = (none, [], buf') ∧ buf'.held = buf.held ++ input := by
  by_cases hnil : input = []
  · exact ⟨buf, by simp [getLine, hnil], by simp [hnil]⟩
  · have hidx : input.idxOf? LF = none := by simpa using h
    have hget : getLine input buf = (none, [], { buf.clean with
        currentLineDb := true
        db := if buf.clean.currentLineDb then buf.clean.db ++ input else input }) := by
      simp only [getLine, hnil, if_false, hidx]
    refine ⟨_, hget, ?_⟩
    have hlf : buf.clean.currentLineLfSeen = false := by
      unfold TxBuf.clean
      split_ifs <;> simp_all
    rw [buf.held_clean]
    cases hdb : buf.clean.currentLineDb <;> simp [TxBuf.held, hlf]

theorem getLine_line {text : List UInt8} (h : LF ∉ text) (rest : List UInt8) (buf : TxBuf) :
    ∃ buf', getLine (text ++ LF :: rest) buf = (some (lineOf (buf.held ++ text)), rest, buf') ∧
      buf'.held = [] := by
  have hidx := idxOf?_line h rest
  have htake : (text ++ LF :: rest).take (text.length + 1) = text ++ [LF] := by
    simp [List.take_append]
  have hdrop : (text ++ LF :: rest).drop (text.length + 1) = rest := by
    simp [List.drop_append]
  have hne : text ++ LF :: rest ≠ [] := by simp
  rw [buf.held_clean]
  cases hdb : buf.clean.currentLineDb with
  | true =>
    have hget : getLine (text ++ LF :: rest) buf =
        (some (lineOf (buf.clean.db ++ text)), rest, { buf.clean with
          db := (lineOf (buf.clean.db ++ text)).data
          currentLineLfSeen := true }) := by
      simp only [getLine, hne, if_false, hidx, hdb, if_true, htake, hdrop, lineOf,
        List.append_assoc]
    exact ⟨_, hget, by simp [TxBuf.held]⟩
  | false =>
    have hget : getLine (text ++ LF :: rest) buf =
        (some (lineOf text), rest, { buf.clean with currentLineLfSeen := true }) := by
      simp only [getLine, hne, if_false, hidx, hdb, htake, hdrop, lineOf]
      rfl
    exact ⟨_, hget, by simp [TxBuf.held]⟩

theorem lineLoop_eq (handle : S → CurrLine → Option S) {fuel : ℕ} {input : List UInt8}
    (hfuel : input.length < fuel) (buf : TxBuf) (hheld : LF ∉ buf.held) (s : S) :
    ∃ buf', buf'.held = (linesOf (buf.held ++ input)).2 ∧
      lineLoop handle fuel input buf s =
        ((linesOf (buf.held ++ input)).1.foldlM handle s).map (·, buf') := by
  induction fuel generalizing input buf s with
  | zero => omega
  | succ fuel ih =>
    rcases line_or_not_mem LF input with ⟨text, rest, htext, rfl⟩ | hmem
    · obtain ⟨buf₁, hget, hnil⟩ := getLine_line htext rest buf
      have hlen : rest.length < fuel := by
        simp only [List.length_append, List.length_cons] at hfuel
        omega
      have hline : LF ∉ buf.held ++ text := by simp [hheld, htext]
      have hlines : linesOf (buf.held ++ (text ++ LF :: rest)) =
          (lineOf (buf.held ++ text) :: (linesOf rest).1, (linesOf rest).2) := by
        rw [← List.append_assoc, linesOf, cutLines_line hline]
        rfl
      rw [hlines]
      simp only [lineLoop, hget, List.foldlM_cons]
      cases hs : handle s (lineOf (buf.held ++ text)) with
      | none =>
        obtain ⟨buf', hbuf', -⟩ := ih hlen buf₁ (by simp [hnil]) s
        exact ⟨buf', by simpa [hnil] using hbuf', rfl⟩
      | some s₁ =>
        obtain ⟨buf', hbuf', hloop⟩ := ih hlen buf₁ (by simp [hnil]) s₁
        exact ⟨buf', by simpa [hnil] using hbuf', by simpa [hnil] using hloop⟩
    · obtain ⟨buf', hget, hbuf'⟩ := getLine_of_not_mem hmem buf
      have hlines : linesOf (buf.held ++ input) = ([], buf.held ++ input) := by
        rw [linesOf, cutLines_of_not_mem (by simp [hheld, hmem])]
        rfl
      rw [hlines]
      exact ⟨buf', hbuf', by simp [lineLoop, hget]⟩

inductive Side
  | client
  | server
  deriving DecidableEq, Repr

/-- A session entry with its line buffers `cur_req_buf` and `cur_res_buf`. -/
structure MailConn (S : Type*) where
  entry : S
  curBuf : Side → TxBuf

def MailConn.init (s : S) : MailConn S := ⟨s, fun _ => .init⟩

/-- `smtp_parse` and `pop3_parse`, none for `PARSE_BREAK`, which closes the session. -/
def MailConn.parse (handle : Side → S → CurrLine → Option S) (c : MailConn S)
    (seg : Side × List UInt8) : Option (MailConn S) :=
  if seg.2 = [] then some c
  else
    (lineLoop (handle seg.1) (seg.2.length + 1) seg.2 (c.curBuf seg.1) c.entry).map fun r =>
      ⟨r.1, Function.update c.curBuf seg.1 r.2⟩

def MailConn.run (handle : Side → S → CurrLine → Option S) (c : MailConn S)
    (segs : List (Side × List UInt8)) : Option (MailConn S) :=
  segs.foldlM (MailConn.parse handle) c

/-- The lines in the order in which their last bytes arrive. -/
def lineEvents (held : Side → List UInt8) : List (Side × List UInt8) → List (Side × CurrLine)
  | [] => []
  | (side, data) :: segs =>
    (linesOf (held side ++ data)).1.map (side, ·) ++
      lineEvents (Function.update held side (linesOf (held side ++ data)).2) segs

theorem linesOf_rest_not_mem (s : List UInt8) : LF ∉ (linesOf s).2 := not_mem_cutLines_rest LF s

theorem linesOf_of_not_mem {s : List UInt8} (h : LF ∉ s) : linesOf s = ([], s) :=
  linesWith_of_not_mem lineOf h

theorem linesOf_append (s s' : List UInt8) :
    linesOf (s ++ s') =
      ((linesOf s).1 ++ (linesOf ((linesOf s).2 ++ s')).1, (linesOf ((linesOf s).2 ++ s')).2) :=
  linesWith_append lineOf LF s s'

theorem parse_eq (handle : Side → S → CurrLine → Option S) (c : MailConn S)
    (hheld : ∀ side, LF ∉ (c.curBuf side).held) (side : Side) (data : List UInt8) :
    ∃ buf', buf'.held = (linesOf ((c.curBuf side).held ++ data)).2 ∧
      MailConn.parse handle c (side, data) =
        ((linesOf ((c.curBuf side).held ++ data)).1.foldlM (handle side) c.entry).map fun s =>
          ⟨s, Function.update c.curBuf side buf'⟩ := by
  by_cases hnil : data = []
  · refine ⟨c.curBuf side, ?_, ?_⟩ <;>
      simp [MailConn.parse, hnil, linesOf_of_not_mem (hheld side)]
  · obtain ⟨buf', hbuf', hloop⟩ :=
      lineLoop_eq (handle side) (Nat.lt_succ_self data.length) _ (hheld side) c.entry
    refine ⟨buf', hbuf', ?_⟩
    simp only [MailConn.parse, hnil, if_false, hloop, Option.map_map]
    rfl

theorem run_eq (handle : Side → S → CurrLine → Option S) (c : MailConn S)
    (hheld : ∀ side, LF ∉ (c.curBuf side).held) (segs : List (Side × List UInt8)) :
    (c.run handle segs).map (·.entry) =
      (lineEvents (fun side => (c.curBuf side).held) segs).foldlM
        (fun s ev => handle ev.1 s ev.2) c.entry := by
  induction segs generalizing c with
  | nil => rfl
  | cons seg segs ih =>
    obtain ⟨side, data⟩ := seg
    obtain ⟨buf', hbuf', hparse⟩ := parse_eq handle c hheld side data
    simp only [MailConn.run, List.foldlM_cons, lineEvents, List.foldlM_append, hparse,
      List.foldlM_map]
    cases (linesOf ((c.curBuf side).held ++ data)).1.foldlM (handle side) c.entry with
    | none => rfl
    | some s =>
      have hupdate : (fun side' => (Function.update c.curBuf side buf' side').held) =
          Function.update (fun side' => (c.curBuf side').held) side
            (linesOf ((c.curBuf side).held ++ data)).2 := by
        rw [← hbuf', ← Function.comp_def, Function.comp_update]
        rfl
      have hnext : ∀ side', LF ∉ (Function.update c.curBuf side buf' side').held := by
        intro side'
        by_cases hside : side' = side
        · rw [hside, Function.update_self, hbuf']
          exact linesOf_rest_not_mem _
        · rw [Function.update_of_ne hside]
          exact hheld side'
      rw [← hupdate]
      exact ih ⟨s, _⟩ hnext

theorem run_init (handle : Side → S → CurrLine → Option S) (s : S)
    (segs : List (Side × List UInt8)) :
    ((MailConn.init s).run handle segs).map (·.entry) =
      (lineEvents (fun _ => []) segs).foldlM (fun s ev => handle ev.1 s ev.2) s :=
  run_eq handle (.init s) (by simp [MailConn.init]) segs

theorem lineEvents_eq_lineOf {held : Side → List UInt8} {segs : List (Side × List UInt8)}
    {ev : Side × CurrLine} (h : ev ∈ lineEvents held segs) :
      ∃ text, LF ∉ text ∧ ev.2 = lineOf text := by
  induction segs generalizing held with
  | nil => simp [lineEvents] at h
  | cons seg segs ih =>
    obtain ⟨side, data⟩ := seg
    rw [lineEvents, List.mem_append] at h
    rcases h with hmem | hmem
    · obtain ⟨line, hline, rfl⟩ := List.mem_map.1 hmem
      obtain ⟨text, htext, rfl⟩ := List.mem_map.1 hline
      exact ⟨text, not_mem_of_mem_cutLines htext, rfl⟩
    · exact ih hmem

theorem exists_segs_of_lineOf {lines : List (Side × CurrLine)}
    (h : ∀ ev ∈ lines, ∃ text, LF ∉ text ∧ ev.2 = lineOf text) :
    ∃ segs, lineEvents (fun _ => []) segs = lines := by
  induction lines with
  | nil => exact ⟨[], rfl⟩
  | cons ev lines ih =>
    obtain ⟨hev, hlines⟩ := List.forall_mem_cons.1 h
    obtain ⟨segs, rfl⟩ := ih hlines
    obtain ⟨side, line⟩ := ev
    obtain ⟨text, htext, rfl⟩ := hev
    refine ⟨(side, text ++ [LF]) :: segs, ?_⟩
    simp [lineEvents, linesOf, cutLines_line htext]

def Cut (side : Side) (bytes : List UInt8) (segs : List (Side × List UInt8)) : Prop :=
  (segs.map Prod.snd).flatten = bytes ∧ ∀ seg ∈ segs, seg.1 = side

theorem lineEvents_cut {side : Side} {bytes : List UInt8} {segs : List (Side × List UInt8)}
    (h : Cut side bytes segs) (held : Side → List UInt8) (hheld : LF ∉ held side)
    (rest : List (Side × List UInt8)) :
    lineEvents held (segs ++ rest) =
      (linesOf (held side ++ bytes)).1.map (side, ·) ++
        lineEvents (Function.update held side (linesOf (held side ++ bytes)).2) rest := by
  induction segs generalizing bytes held with
  | nil =>
    obtain rfl : [] = bytes := h.1
    simp [linesOf_of_not_mem hheld]
  | cons seg segs ih =>
    obtain ⟨hbytes, hside⟩ := h
    obtain ⟨side', data⟩ := seg
    obtain rfl : side' = side := hside _ List.mem_cons_self
    have hcut : Cut side' (segs.map Prod.snd).flatten segs :=
      ⟨rfl, fun seg hseg => hside seg (List.mem_cons_of_mem _ hseg)⟩
    have hrest : LF ∉ Function.update held side' (linesOf (held side' ++ data)).2 side' := by
      rw [Function.update_self]
      exact linesOf_rest_not_mem _
    have happend := linesOf_append (held side' ++ data) (segs.map Prod.snd).flatten
    rw [List.append_assoc] at happend
    rw [List.cons_append, lineEvents, ih hcut _ hrest, Function.update_self, Function.update_idem,
      ← hbytes]
    simp only [List.map_cons, List.flatten_cons, happend, List.map_append, List.append_assoc]

theorem lineEvents_cut_lines {side : Side} {texts : List (List UInt8)}
    {segs : List (Side × List UInt8)} (h : Cut side (texts.flatMap (· ++ [CR, LF])) segs)
    (htexts : ∀ text ∈ texts, LF ∉ text) (rest : List (Side × List UInt8)) :
    lineEvents (fun _ => []) (segs ++ rest) =
      texts.map (fun text => (side, ⟨text, 2⟩)) ++ lineEvents (fun _ => []) rest := by
  have hcut : cutLines LF (texts.flatMap (· ++ [CR, LF])) = (texts.map (· ++ [CR]), []) := by
    have hlines : ∀ line ∈ texts.map (· ++ [CR]), LF ∉ line := by
      intro line hline
      obtain ⟨text, htext, rfl⟩ := List.mem_map.1 hline
      have hcr : LF ≠ CR := by decide
      simp [htexts text htext, hcr]
    have h := cutLines_flatMap hlines
    rw [List.flatMap_map] at h
    simpa using h
  rw [lineEvents_cut h _ (by simp)]
  simp only [linesOf, List.nil_append, hcut, List.map_map, Function.update_eq_self]
  congr 1
  exact List.map_congr_left fun text _ => by simp [lineOf_of_crlf]

end

end CloudHands.Mail
