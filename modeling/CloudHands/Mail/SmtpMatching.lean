import CloudHands.Mail.SmtpDialogue

/-!
# Matching commands with replies

Along a dialogue whose steps meet the condition, the command buffer of the SMTP parser holds
the commands that were sent and are not yet answered. An invariant says so for the lines one
by one; the cut of the bytes into segments plays no part.
-/

namespace CloudHands.Mail

open Lib Http Slice

def ReadingFollowed (st : SmtpState) (p : SmtpParserState) (cur : Option SmtpCommand)
    (pending : List SmtpCommand) : SmtpReading → Prop
  | .command => p.commandDataMode = false
  | .mail =>
    p.commandDataMode = true ∧ cur = some .data ∧ (pending = [] ∨ pending = [.data])
  | .chunk left =>
    p.commandDataMode = true ∧ cur = some .bdat ∧ 0 < left ∧
      st.bdatChunkIdx + left = st.bdatChunkLen ∧ st.bdatChunkLen < 2 ^ 32
  | .tls => False

structure BufferHolds (cmds : List (Option SmtpCommand)) (idx cnt : ℕ) (q : List SmtpCommand) :
    Prop where
  slots : slice cmds idx cnt = q.map some
  idx_le : idx ≤ cnt
  cnt_le : cnt ≤ cmds.length
  length_eq : cmds.length = smtpCommandBufferSteps
  drained : idx = cnt → cnt = 0

structure Follows (st : SmtpState) (p : SmtpParserState) (cur : Option SmtpCommand)
    (d : SmtpDialogue) : Prop where
  buffer : BufferHolds st.cmds st.cmdsIdx st.cmdsCnt d.pending
  greeted : p.firstReplySeen = d.greeted
  early : d.greeted = false → d.pending = [] ∧ d.reading = .command
  held : ∀ c ∈ d.pending.dropLast, c.holds = false
  reading : ReadingFollowed st p cur d.pending d.reading
  waiting : ∀ c, d.pending.getLast? = some c → c.holds →
    cur = some c ∧ (d.reading = .command ∨ d.reading = .mail ∧ c = .data)
  asked : d.asked → d.reading = .command ∧ d.pending = [] ∧ cur = some .auth ∧
    (p.authUsername ∨ p.authPassword)

namespace BufferHolds

variable {cmds : List (Option SmtpCommand)} {idx cnt : ℕ} {q : List SmtpCommand} {c : SmtpCommand}

theorem init : BufferHolds smtpStateCreate.cmds 0 0 [] where
  slots := by simp [slice]
  idx_le := le_refl 0
  cnt_le := Nat.zero_le _
  length_eq := by simp [smtpStateCreate]
  drained := fun _ => rfl

theorem nil_iff (h : BufferHolds cmds idx cnt q) : q = [] ↔ idx = cnt := by
  have hlen := slice_length cmds (a := idx) h.cnt_le
  rw [h.slots, List.length_map] at hlen
  rw [← List.length_eq_zero_iff, hlen]
  have hle := h.idx_le
  omega

theorem push (h : BufferHolds cmds idx cnt q) (hroom : cnt < cmds.length) (c : SmtpCommand) :
    BufferHolds (cmds.set cnt (some c)) idx (cnt + 1) (q ++ [c]) where
  slots := by
    have hget : (cmds.set cnt (some c))[cnt]? = some (some c) := by simp [hroom]
    rw [slice_succ h.idx_le hget, slice_set (le_refl cnt), h.slots, List.map_append]
    rfl
  idx_le := h.idx_le.trans (Nat.le_succ cnt)
  cnt_le := by simpa using hroom
  length_eq := by simpa using h.length_eq
  drained := fun heq => absurd h.idx_le (by omega)

theorem head (h : BufferHolds cmds idx cnt (c :: q)) :
    idx < cnt ∧ cmds[idx]? = some (some c) ∧ slice cmds (idx + 1) cnt = q.map some :=
  slice_eq_cons h.slots

theorem pop (h : BufferHolds cmds idx cnt (c :: q)) :
    BufferHolds cmds (if idx + 1 = cnt then 0 else idx + 1)
      (if idx + 1 = cnt then 0 else cnt) q := by
  obtain ⟨hlt, -, htail⟩ := h.head
  by_cases hlast : idx + 1 = cnt
  · have hq : q = [] := by
      rw [hlast, slice_self] at htail
      simpa using htail.symm
    subst hq
    simp only [hlast, if_true]
    exact ⟨by simp [slice], le_refl 0, Nat.zero_le _, h.length_eq, fun _ => rfl⟩
  · simp only [hlast, if_false]
    exact ⟨htail, hlt, h.cnt_le, h.length_eq, fun heq => absurd heq hlast⟩

theorem next (h : BufferHolds cmds idx cnt q) :
    (if idx = cnt then none else (cmds[idx]?).join) = q.head? := by
  cases q with
  | nil => simp [h.nil_iff.1 rfl]
  | cons c q =>
    obtain ⟨hlt, hget, -⟩ := h.head
    simp [hget, hlt.ne]

end BufferHolds

theorem smtpInsertCmdBuffer_of_room {e : SmtpEntry} {q : List SmtpCommand}
    (h : BufferHolds e.state.cmds e.state.cmdsIdx e.state.cmdsCnt q)
    (hroom : e.state.cmdsCnt < e.state.cmds.length) (c : Option SmtpCommand) :
    smtpInsertCmdBuffer c e =
      ({ e with state := { e.state with
          cmds := e.state.cmds.set e.state.cmdsCnt c
          cmdsCnt := e.state.cmdsCnt + 1 } }, true) := by
  have hlen := h.length_eq
  have hsmall : ¬ushrtMax < e.state.cmdsCnt + 1 := by
    simp only [ushrtMax, smtpCommandBufferSteps] at hlen ⊢
    omega
  simp only [smtpInsertCmdBuffer, if_neg hsmall, if_neg (not_le.2 hroom)]

theorem Follows.matched {e : SmtpEntry} {d : SmtpDialogue}
    (h : Follows e.state e.parserState e.currentCommand d) : Matched e d where
  pending := h.buffer.slots
  next := h.buffer.next
  dataMode := by
    have hr := h.reading
    cases hd : d.reading <;> simp_all [ReadingFollowed]

structure SameBuffer (e e' : SmtpEntry) : Prop where
  cmds : e'.state.cmds = e.state.cmds
  idx : e'.state.cmdsIdx = e.state.cmdsIdx
  cnt : e'.state.cmdsCnt = e.state.cmdsCnt
  seen : e'.parserState.firstReplySeen = e.parserState.firstReplySeen

inductive ReadsCommand (line : CurrLine) (e : SmtpEntry) : Option SmtpCommand → Option SmtpEntry →
    Prop
  | starttls :
      ReadsCommand line e (some .starttls) (some { e with currentCommand := some .starttls })
  | data : ReadsCommand line e (some .data)
      (some (smtpStartMime { e with currentCommand := some .data }))
  | bdat : ReadsCommand line e (some .bdat) ((smtpParseCommandBdat line e).map fun e =>
      { e with currentCommand := some .bdat
               parserState := { e.parserState with commandDataMode := true } })
  | helo : ReadsCommand line e (some .otherCmd)
      (some { smtpParseCommandHelo line e with currentCommand := some .otherCmd })
  | auth : ReadsCommand line e (some .auth)
      ((smtpParseCommandAuth line e).map fun e => { e with currentCommand := some .auth })
  | mailFrom : ReadsCommand line e (some .otherCmd)
      (some { smtpParseCommandMailfrom line e with currentCommand := some .otherCmd })
  | rcptTo : ReadsCommand line e (some .otherCmd)
      (some { smtpParseCommandRcptto line e with currentCommand := some .otherCmd })
  | quit : ReadsCommand line e (some .quit) (some { e with currentCommand := some .quit })
  | none : ReadsCommand line e none
      (if e.parserState.authUsername then some (smtpParseCommandAuthLoginUsername line e)
      else if e.parserState.authPassword then some (smtpParseCommandAuthLoginPassword line e)
      else some { e with currentCommand := some .otherCmd })

theorem readsCommand (line : CurrLine) (e : SmtpEntry) :
    ReadsCommand line e (commandOf line) (smtpReadCommand line e) := by
  rw [commandOf, smtpReadCommand]
  by_cases hstarttls : startsWith "starttls" line
  · rw [if_pos hstarttls, if_pos hstarttls]
    exact .starttls
  rw [if_neg hstarttls, if_neg hstarttls]
  by_cases hdata : startsWith "data" line
  · rw [if_pos hdata, if_pos hdata]
    exact .data
  rw [if_neg hdata, if_neg hdata]
  by_cases hbdat : startsWith "bdat" line
  · rw [if_pos hbdat, if_pos hbdat]
    exact .bdat
  rw [if_neg hbdat, if_neg hbdat]
  by_cases hhelo : startsWith "helo" line || startsWith "ehlo" line
  · rw [if_pos hhelo, if_pos hhelo]
    exact .helo
  rw [if_neg hhelo, if_neg hhelo]
  by_cases hauth : startsWith "auth" line
  · rw [if_pos hauth, if_pos hauth]
    exact .auth
  rw [if_neg hauth, if_neg hauth]
  by_cases hmail : startsWith "mail from" line
  · rw [if_pos hmail, if_pos hmail]
    exact .mailFrom
  rw [if_neg hmail, if_neg hmail]
  by_cases hrcpt : startsWith "rcpt to" line
  · rw [if_pos hrcpt, if_pos hrcpt]
    exact .rcptTo
  rw [if_neg hrcpt, if_neg hrcpt]
  by_cases hquit : startsWith "quit" line
  · rw [if_pos hquit, if_pos hquit]
    exact .quit
  rw [if_neg hquit, if_neg hquit]
  exact .none

theorem smtpReadCommand_word {line : CurrLine} {c : SmtpCommand} (h : commandOf line = some c)
    (hbdat : c ≠ .bdat) (hauth : c ≠ .auth) (e : SmtpEntry) :
    ∃ e', smtpReadCommand line e = some e' ∧ SameBuffer e e' ∧ e'.currentCommand = some c ∧
      e'.parserState = e.parserState := by
  have hreads := readsCommand line e
  rw [h] at hreads
  generalize smtpReadCommand line e = r at hreads ⊢
  cases hreads with
  | starttls | data | helo | mailFrom | rcptTo | quit =>
      exact ⟨_, rfl, ⟨rfl, rfl, rfl, rfl⟩, rfl, rfl⟩
  | bdat => exact absurd rfl hbdat
  | auth => exact absurd rfl hauth

theorem smtpParseCommandAuth_of_taken {line : CurrLine} (h : authTaken line) (e : SmtpEntry) :
    ∃ e', smtpParseCommandAuth line e = some e' ∧ e'.state = e.state ∧
      e'.parserState = e.parserState := by
  unfold authTaken at h
  unfold smtpParseCommandAuth
  split_ifs at h with hplain
  · simp only [Bool.and_eq_true, decide_eq_true_eq] at h
    obtain ⟨⟨hblank, harg⟩, hdecode⟩ := h
    obtain ⟨plain, hplain'⟩ := Option.isSome_iff_exists.1 hdecode
    rw [if_pos hplain, smtpParseCommandAuthPlain, if_neg (not_not.2 hblank), if_neg harg,
      mailAuthPlain, hplain', Option.map_some, Option.map_some]
    exact ⟨_, rfl, rfl, rfl⟩
  · rw [if_neg hplain]
    rcases Bool.or_eq_true_iff.1 h with hlogin | hcram
    · exact ⟨e, by rw [if_pos hlogin], rfl, rfl⟩
    · exact ⟨e, by rw [if_pos hcram, ite_self], rfl, rfl⟩

theorem smtpReadCommand_auth {line : CurrLine} (h : commandOf line = some .auth)
    (htaken : authTaken line) (e : SmtpEntry) :
    ∃ e', smtpReadCommand line e = some e' ∧ SameBuffer e e' ∧ e'.currentCommand = some .auth ∧
      e'.parserState = e.parserState := by
  obtain ⟨e₁, he₁, hstate, hparser⟩ := smtpParseCommandAuth_of_taken htaken e
  have hreads := readsCommand line e
  rw [h] at hreads
  generalize smtpReadCommand line e = r at hreads ⊢
  cases hreads
  rw [he₁]
  refine ⟨{ e₁ with currentCommand := some .auth }, rfl, ?_, rfl, hparser⟩
  exact ⟨by simp [hstate], by simp [hstate], by simp [hstate], by simp [hparser]⟩

theorem smtpReadCommand_none {line : CurrLine} (h : commandOf line = none) (e : SmtpEntry) :
    smtpReadCommand line e =
      if e.parserState.authUsername then some (smtpParseCommandAuthLoginUsername line e)
      else if e.parserState.authPassword then some (smtpParseCommandAuthLoginPassword line e)
      else some { e with currentCommand := some .otherCmd } := by
  have hreads := readsCommand line e
  rw [h] at hreads
  generalize smtpReadCommand line e = r at hreads ⊢
  cases hreads
  rfl

theorem smtpParseCommandBdat_of_size {line : CurrLine} {n : ℕ} (h : chunkSize line = some n)
    (hn : n < 2 ^ 32) (e : SmtpEntry) :
    smtpParseCommandBdat line e =
      some { e with state := { e.state with bdatChunkLen := n } } := by
  simp only [chunkSize, Option.ite_none_right_eq_some] at h
  obtain ⟨⟨hblank, hdigit⟩, h⟩ := h
  obtain ⟨rest, hrest⟩ : ∃ rest, line.data.drop 4 = 32 :: rest := by
    cases hdrop : line.data.drop 4 with
    | nil => simp [List.getElem?_eq_none (List.drop_eq_nil_iff.1 hdrop)] at hblank
    | cons b rest =>
      have hb : (line.data.drop 4)[0]? = some b := by simp [hdrop]
      rw [List.getElem?_drop, hblank] at hb
      exact ⟨rest, by rw [Option.some.inj hb]⟩
  have hshort : ((line.data.drop 4).dropWhile (· = 32)).length ≠ line.data.length - 4 := by
    have hlen : (rest.dropWhile (· = (32 : UInt8))).length ≤ rest.length :=
      (List.dropWhile_suffix _).length_le
    rw [← List.length_drop, hrest]
    simp only [List.dropWhile_cons, decide_true, if_true, List.length_cons]
    omega
  cases harg : (line.data.drop 4).dropWhile (· = 32) with
  | nil => simp [harg] at hdigit
  | cons b arg =>
    rw [harg] at h hdigit hshort
    have hb : (asciiDigit (chr b)).isSome := by simpa using hdigit
    obtain rfl : leadingDigits 0 (chr b :: arg.map chr) = n := by simpa using h
    have hval : strtoul (chr b :: arg.map chr) = leadingDigits 0 (chr b :: arg.map chr) :=
      strtoul_of_digit hb (hn.trans (by norm_num))
    simp only [smtpParseCommandBdat, harg, if_neg hshort, List.map_cons, splitSign_of_digit hb,
      List.head?_cons, hval, Nat.mod_eq_of_lt hn]
    simp [Option.isNone_eq_false_iff.2 hb]

theorem smtpReadCommand_bdat {line : CurrLine} {n : ℕ} (h : commandOf line = some .bdat)
    (hsize : chunkSize line = some n) (hn : n < 2 ^ 32) (e : SmtpEntry) :
    smtpReadCommand line e = some { e with
      currentCommand := some .bdat
      state := { e.state with bdatChunkLen := n }
      parserState := { e.parserState with commandDataMode := true } } := by
  have hreads := readsCommand line e
  rw [h] at hreads
  generalize smtpReadCommand line e = r at hreads ⊢
  cases hreads
  rw [smtpParseCommandBdat_of_size hsize hn]
  rfl

structure ReadAs (line : CurrLine) (e e' : SmtpEntry) (d d' : SmtpDialogue) (c : SmtpCommand) :
    Prop where
  read : smtpReadCommand line e = some e'
  same : SameBuffer e e'
  current : e'.currentCommand = some c
  greeted : d'.greeted = d.greeted
  sent : d'.pending = d.pending ++ [c]
  asked : d'.asked = false
  reading : ReadingFollowed e'.state e'.parserState (some c) d'.pending d'.reading
  waits : c.holds → d'.reading = .command

theorem ReadAs.of_command {line : CurrLine} {e e' : SmtpEntry} {d : SmtpDialogue} {c : SmtpCommand}
    (hr : d.reading = .command) (hmode : e'.parserState.commandDataMode = false)
    (hread : smtpReadCommand line e = some e') (hsame : SameBuffer e e')
    (hcur : e'.currentCommand = some c) :
    ReadAs line e e' d { d with asked := false, pending := d.pending ++ [c] } c where
  read := hread
  same := hsame
  current := hcur
  greeted := rfl
  sent := rfl
  asked := rfl
  reading := by
    simp only [hr]
    exact hmode
  waits := fun _ => hr

theorem readAs_none {line : CurrLine} {e : SmtpEntry} {d : SmtpDialogue} {c : SmtpCommand}
    (h : commandOf line = none) (hr : d.reading = .command)
    (hmode : e.parserState.commandDataMode = false)
    (hflags : e.parserState.authUsername ∨ e.parserState.authPassword → e.currentCommand = some c)
    (hother : e.parserState.authUsername = false → e.parserState.authPassword = false →
      c = .otherCmd) :
    ∃ e', ReadAs line e e' d { d with asked := false, pending := d.pending ++ [c] } c := by
  have hread := smtpReadCommand_none h e
  split at hread
  · rename_i huser
    exact ⟨_, .of_command hr (by exact hmode) hread ⟨rfl, rfl, rfl, rfl⟩ (hflags (.inl huser))⟩
  · rename_i huser
    split at hread
    · rename_i hpass
      exact ⟨_, .of_command hr (by exact hmode) hread ⟨rfl, rfl, rfl, rfl⟩ (hflags (.inr hpass))⟩
    · rename_i hpass
      obtain rfl := hother (by simpa using huser) (by simpa using hpass)
      exact ⟨_, .of_command hr (by exact hmode) hread ⟨rfl, rfl, rfl, rfl⟩ rfl⟩

theorem SmtpDialogue.command_word {d : SmtpDialogue} {line : CurrLine} {c : SmtpCommand}
    (hasked : d.asked = false) (h : commandOf line = some c) (hbdat : c ≠ .bdat) :
    d.command line = some { d with asked := false, pending := d.pending ++ [c] } := by
  simp only [SmtpDialogue.command, hasked, h]
  cases c <;> first | rfl | exact absurd rfl hbdat

theorem readCommand_follows {e : SmtpEntry} {d d' : SmtpDialogue} {line : CurrLine}
    (hf : Follows e.state e.parserState e.currentCommand d) (hr : d.reading = .command)
    (htaken : commandTaken e d line) (hd : d.command line = some d') :
    ∃ e' c, ReadAs line e e' d d' c := by
  have hmode : e.parserState.commandDataMode = false := by
    have h := hf.reading
    rw [hr] at h
    exact h
  unfold commandTaken at htaken
  by_cases hasked : d.asked
  · rw [if_pos hasked, Option.isNone_iff_eq_none] at htaken
    obtain ⟨-, -, hcur, hflags⟩ := hf.asked hasked
    have hd' : { d with asked := false, pending := d.pending ++ [.auth] } = d' := by
      simpa [SmtpDialogue.command, hasked] using hd
    obtain ⟨e', he'⟩ := readAs_none (c := .auth) htaken hr hmode (fun _ => hcur)
      (fun huser hpass => by simp [huser, hpass] at hflags)
    exact ⟨e', .auth, hd' ▸ he'⟩
  · have hnot : d.asked = false := by simpa using hasked
    rw [if_neg hasked] at htaken
    cases hc : commandOf line with
    | none =>
      simp only [hc, Bool.or_eq_true, Bool.and_eq_true, Bool.not_eq_true', decide_eq_true_eq]
        at htaken
      have hd' : { d with asked := false, pending := d.pending ++ [.otherCmd] } = d' := by
        simpa [SmtpDialogue.command, hnot, hc] using hd
      obtain ⟨e', he'⟩ := readAs_none (c := .otherCmd) hc hr hmode
        (fun hflag => htaken.resolve_left (by rcases hflag with h | h <;> simp [h]))
        (fun _ _ => rfl)
      exact ⟨e', .otherCmd, hd' ▸ he'⟩
    | some c =>
      rw [hc] at htaken
      by_cases hbdat : c = .bdat
      · subst hbdat
        obtain ⟨hidx, n, hsize, hpos, hn⟩ : e.state.bdatChunkIdx = 0 ∧
            ∃ n, chunkSize line = some n ∧ 0 < n ∧ n < 2 ^ 32 := by
          simpa [Option.any_eq_true] using htaken
        simp only [SmtpDialogue.command, hnot, hc, hsize, Option.map_some, if_neg hpos.ne',
          Bool.false_eq_true, if_false, Option.some.injEq] at hd
        subst hd
        exact ⟨_, .bdat, smtpReadCommand_bdat hc hsize hn e, ⟨rfl, rfl, rfl, rfl⟩, rfl, rfl, rfl,
          rfl,
          ⟨rfl, rfl, hpos, by simp [hidx], hn⟩, fun h => absurd h (by decide)⟩
      · rw [SmtpDialogue.command_word hnot hc hbdat] at hd
        obtain rfl := Option.some.inj hd
        by_cases hauth : c = .auth
        · subst hauth
          obtain ⟨e', he', hsame, hcur, hparser⟩ := smtpReadCommand_auth hc htaken e
          exact ⟨e', .auth, .of_command hr (hparser ▸ hmode) he' hsame hcur⟩
        · obtain ⟨e', he', hsame, hcur, hparser⟩ := smtpReadCommand_word hc hbdat hauth e
          exact ⟨e', c, .of_command hr (hparser ▸ hmode) he' hsame hcur⟩

theorem follows_smtpSession {e : SmtpEntry} {d : SmtpDialogue}
    (h : Follows e.state e.parserState e.currentCommand d) (line : CurrLine) :
    Follows (smtpSession e line).state (smtpSession e line).parserState
      (smtpSession e line).currentCommand d := by
  unfold smtpSession
  split <;> exact h

theorem stepTaken_smtpSession {e : SmtpEntry} {d : SmtpDialogue} {ev : Side × CurrLine}
    (h : stepTaken e d ev) (line : CurrLine) : stepTaken (smtpSession e line) d ev := by
  unfold smtpSession
  split <;> exact h

theorem not_holds_of_pending {e : SmtpEntry} {d : SmtpDialogue}
    (hf : Follows e.state e.parserState e.currentCommand d)
    (hwait : ¬d.pending.getLast?.any SmtpCommand.holds) : ∀ c ∈ d.pending, c.holds = false := by
  intro c hc
  rcases List.eq_nil_or_concat d.pending with hnil | ⟨init, last, heq⟩
  · simp [hnil] at hc
  · rw [List.concat_eq_append] at heq
    have hinit := hf.held
    rw [heq, List.dropLast_concat] at hinit
    rw [heq, List.mem_append, List.mem_singleton] at hc
    rcases hc with hmem | rfl
    · exact hinit c hmem
    · simpa [heq] using hwait

theorem insert_follows {line : CurrLine} {e e' : SmtpEntry} {d d' : SmtpDialogue} {c : SmtpCommand}
    (hf : Follows e.state e.parserState e.currentCommand d) (hread : ReadAs line e e' d d' c)
    (hgreeted : d.greeted) (hroom : e.state.cmdsCnt < e.state.cmds.length)
    (hheld : ∀ c ∈ d.pending, c.holds = false) :
    ∃ e'', smtpInsertCmdBuffer e'.currentCommand e' = (e'', true) ∧
      Follows e''.state e''.parserState e''.currentCommand d' := by
  obtain ⟨-, hsame, hcur, hg, hsent, hasked, hreading, hwaits⟩ := hread
  have hbuf : BufferHolds e'.state.cmds e'.state.cmdsIdx e'.state.cmdsCnt d.pending := by
    rw [hsame.cmds, hsame.idx, hsame.cnt]
    exact hf.buffer
  have hroom' : e'.state.cmdsCnt < e'.state.cmds.length := by
    rw [hsame.cmds, hsame.cnt]
    exact hroom
  refine ⟨_, smtpInsertCmdBuffer_of_room hbuf hroom' _, ?_⟩
  refine ⟨?_, ?_, ?_, ?_, ?_, ?_, ?_⟩
  · rw [hsent, hcur]
    exact hbuf.push hroom' c
  · rw [hg]
    exact hsame.seen.trans hf.greeted
  · intro h
    simp [hg, hgreeted] at h
  · rw [hsent, List.dropLast_concat]
    exact hheld
  · rw [hcur]
    cases hd : d'.reading <;> rw [hd] at hreading <;> exact hreading
  · intro c' hlast hholds
    rw [hsent, List.getLast?_concat, Option.some.injEq] at hlast
    subst hlast
    exact ⟨hcur, .inl (hwaits hholds)⟩
  · intro h
    simp [hasked] at h

theorem Follows.dataLine {st st' : SmtpState} {p p' : SmtpParserState} {cur : Option SmtpCommand}
    {d : SmtpDialogue} {r : SmtpReading} (hf : Follows st p cur d) (hr : d.reading ≠ .command)
    (hheld : ∀ c ∈ d.pending, c.holds = false)
    (hst : st'.cmds = st.cmds ∧ st'.cmdsIdx = st.cmdsIdx ∧ st'.cmdsCnt = st.cmdsCnt)
    (hseen : p'.firstReplySeen = p.firstReplySeen)
    (hreading : ReadingFollowed st' p' cur d.pending r) :
    Follows st' p' cur { d with reading := r } where
  buffer := by
    rw [hst.1, hst.2.1, hst.2.2]
    exact hf.buffer
  greeted := hseen.trans hf.greeted
  early := fun h => absurd (hf.early h).2 hr
  held := hf.held
  reading := hreading
  waiting := fun c hlast hholds =>
    absurd hholds (by simp [hheld c (List.mem_of_getLast? hlast)])
  asked := fun h => absurd (hf.asked h).1 hr

theorem mailEnd_follows {e : SmtpEntry} {d : SmtpDialogue} {line : CurrLine}
    (hf : Follows e.state e.parserState e.currentCommand d) (hr : d.reading = .mail)
    (hheld : ∀ c ∈ d.pending, c.holds = false) (hend : line.data = bytesOf ".") :
    Follows (smtpProcessCmdData line e).state (smtpProcessCmdData line e).parserState
      (smtpProcessCmdData line e).currentCommand
      { d with pending := d.pending ++ [.dataMode], reading := .command } := by
  have hne : d.reading ≠ .command := by simp [hr]
  obtain ⟨hmode, hcur, hpending⟩ : ReadingFollowed e.state e.parserState e.currentCommand
      d.pending .mail := hr ▸ hf.reading
  have hnil : d.pending = [] := by
    refine hpending.resolve_right fun h => ?_
    have hholds := hheld .data (by simp [h])
    cases hholds
  have hcnt : e.state.cmdsCnt = 0 := hf.buffer.drained (hf.buffer.nil_iff.1 hnil)
  have hroom : e.state.cmdsCnt < e.state.cmds.length := by
    rw [hcnt, hf.buffer.length_eq]
    decide
  let e₁ : SmtpEntry := { e with parserState := { e.parserState with commandDataMode := false } }
  have hinsert := smtpInsertCmdBuffer_of_room (e := e₁) hf.buffer hroom (some .dataMode)
  have hresult : smtpProcessCmdData line e =
      { (smtpInsertCmdBuffer (some .dataMode) e₁).1 with toMailSentry :=
          (((smtpInsertCmdBuffer (some .dataMode) e₁).1.toMailSentry.mapMime
            MimeDecState.parseComplete).mapSession fun s => { s with done := true }).store } := by
    simp only [smtpProcessCmdData, hmode, hend, Bool.not_true, Bool.false_eq_true, if_false,
      if_true]
    rfl
  rw [hresult, hinsert]
  exact
    { buffer := hf.buffer.push hroom .dataMode
      greeted := hf.greeted
      early := fun h => absurd (hf.early h).2 hne
      held := by simp [hnil]
      reading := rfl
      waiting := by
        intro c hlast hholds
        obtain rfl : SmtpCommand.dataMode = c := by simpa using hlast
        cases hholds
      asked := fun h => absurd (hf.asked h).1 hne }

theorem chunkLine_follows {e : SmtpEntry} {d : SmtpDialogue} {line : CurrLine} {left : ℕ}
    (hf : Follows e.state e.parserState e.currentCommand d) (hr : d.reading = .chunk left)
    (hheld : ∀ c ∈ d.pending, c.holds = false)
    (hsize : line.data.length + line.delimiterLen ≤ left) :
    ∃ e', smtpProcessCmdBdat line e = some e' ∧
      Follows e'.state e'.parserState e'.currentCommand
        { d with reading :=
            if line.data.length + line.delimiterLen < left then
              .chunk (left - (line.data.length + line.delimiterLen))
            else .command } := by
  have hne : d.reading ≠ .command := by simp [hr]
  obtain ⟨hmode, hcur, hpos, hsum, hlt⟩ : ReadingFollowed e.state e.parserState e.currentCommand
      d.pending (.chunk left) := hr ▸ hf.reading
  have hmod : (e.state.bdatChunkIdx + (line.data.length + line.delimiterLen)) % 2 ^ 32 =
      e.state.bdatChunkIdx + (line.data.length + line.delimiterLen) := Nat.mod_eq_of_lt (by omega)
  simp only [smtpProcessCmdBdat, hmod]
  rw [if_neg (by omega)]
  split
  · rename_i hend
    rw [if_neg (by omega)]
    exact ⟨_, rfl, hf.dataLine hne hheld ⟨rfl, rfl, rfl⟩ (by rfl) (by rfl)⟩
  · rename_i hmore
    rw [if_pos (by omega)]
    refine ⟨_, rfl, hf.dataLine hne hheld ⟨rfl, rfl, rfl⟩ rfl ?_⟩
    exact ⟨hmode, hcur, by omega, by simp only; omega, hlt⟩

theorem client_follows {e : SmtpEntry} {d d' : SmtpDialogue} {line : CurrLine}
    (hf : Follows e.state e.parserState e.currentCommand d) (htaken : stepTaken e d (.client, line))
    (hd : d.client line = some d') :
    ∃ e', smtpProcessRequest e line = some e' ∧
      Follows e'.state e'.parserState e'.currentCommand d' := by
  have hf₀ := follows_smtpSession hf line
  have htaken₀ := stepTaken_smtpSession htaken line
  unfold SmtpDialogue.client at hd
  split at hd
  · cases hd
  rename_i hwait
  have hheld := not_holds_of_pending hf hwait
  simp only [smtpProcessRequest]
  generalize smtpSession e line = e₀ at hf₀ htaken₀ ⊢
  have hreading := hf₀.reading
  simp only [stepTaken] at htaken₀
  cases hr : d.reading with
  | command =>
    simp only [hr] at hd htaken₀ hreading
    obtain ⟨⟨hgreeted, hroom⟩, hcommand⟩ := by
      simpa only [Bool.and_eq_true, decide_eq_true_eq] using htaken₀
    obtain ⟨e₁, c, hread⟩ := readCommand_follows hf₀ hr hcommand hd
    obtain ⟨e₂, hinsert, hf₂⟩ := insert_follows hf₀ hread hgreeted hroom hheld
    have hmode : e₀.parserState.commandDataMode = false := hreading
    exact ⟨e₂, by simp [hmode, hread.read, hinsert], hf₂⟩
  | mail =>
    simp only [hr] at hd hreading
    obtain ⟨hmode, hcur, -⟩ := hreading
    refine ⟨smtpProcessCmdData line e₀, by simp [hmode, hcur], ?_⟩
    split at hd
    · rename_i hend
      obtain rfl := Option.some.inj hd
      exact mailEnd_follows hf₀ hr hheld hend
    · rename_i hend
      obtain rfl := Option.some.inj hd
      simp only [smtpProcessCmdData, hmode, hend, hcur, Bool.not_true, Bool.false_eq_true, if_false,
        if_true]
      exact hcur ▸ hf₀
  | chunk left =>
    simp only [hr] at hd htaken₀ hreading
    obtain ⟨hmode, hcur, -⟩ := hreading
    have hsize : line.data.length + line.delimiterLen ≤ left := by simpa using htaken₀
    obtain ⟨e₁, he₁, hf₁⟩ := chunkLine_follows hf₀ hr hheld hsize
    refine ⟨e₁, by simp [hmode, hcur, he₁], ?_⟩
    split at hd
    · rename_i hless
      obtain rfl := Option.some.inj hd
      rwa [if_pos hless] at hf₁
    · rename_i hless
      rw [if_pos (by omega)] at hd
      obtain rfl := Option.some.inj hd
      rwa [if_neg hless] at hf₁
  | tls => simp [hr] at hd

theorem smtpGetReplyCode_iff {i : ℕ} {code : List UInt8} (hi : i ≠ 0)
    (hcode : smtpReplyMap.idxOf? code = some i) (line : CurrLine) :
    smtpGetReplyCode line = i ↔ line.data.take 3 = code := by
  unfold smtpGetReplyCode
  constructor
  · intro h
    have hidx : smtpReplyMap.idxOf? (line.data.take 3) = some i := by
      cases hline : smtpReplyMap.idxOf? (line.data.take 3) with
      | none => exact absurd (by simpa [hline] using h.symm) hi
      | some j => simpa [hline] using h
    obtain ⟨hlt, hget, -⟩ := List.idxOf?_eq_some_iff.1 hidx
    obtain ⟨hlt', hget', -⟩ := List.idxOf?_eq_some_iff.1 hcode
    exact hget.symm.trans hget'
  · intro h
    rw [h, hcode]
    rfl

theorem reply220_iff (line : CurrLine) :
    smtpGetReplyCode line = smtpReply220 ↔ line.data.take 3 = bytesOf "220" :=
  smtpGetReplyCode_iff (by decide) (by decide) line

theorem reply334_iff (line : CurrLine) :
    smtpGetReplyCode line = smtpReply334 ↔ line.data.take 3 = bytesOf "334" :=
  smtpGetReplyCode_iff (by decide) (by decide) line

theorem reply354_iff (line : CurrLine) :
    smtpGetReplyCode line = smtpReply354 ↔ line.data.take 3 = bytesOf "354" :=
  smtpGetReplyCode_iff (by decide) (by decide) line

theorem replyCode_eq_some {line : CurrLine} {code : List UInt8}
    (h : SmtpDialogue.replyCode line = some code) : code = line.data.take 3 ∧
      3 ≤ line.data.length := by
  simp only [SmtpDialogue.replyCode, Option.ite_none_right_eq_some, Option.some.injEq,
    List.length_take] at h
  obtain ⟨⟨hlen, -⟩, rfl⟩ := h
  exact ⟨rfl, by omega⟩

theorem Follows.alone {st : SmtpState} {p : SmtpParserState} {cur : Option SmtpCommand}
    {d : SmtpDialogue} {c : SmtpCommand} {rest : List SmtpCommand} (hf : Follows st p cur d)
    (hp : d.pending = c :: rest) (hholds : c.holds) :
    rest = [] ∧ cur = some c ∧ (d.reading = .command ∨ d.reading = .mail ∧ c = .data) := by
  have hnil : rest = [] := by
    by_contra hne
    have hmem : c ∈ d.pending.dropLast := by
      rw [hp, List.dropLast_cons_of_ne_nil hne]
      exact List.mem_cons_self
    simp [hf.held c hmem] at hholds
  subst hnil
  exact ⟨rfl, hf.waiting c (by simp [hp]) hholds⟩

theorem Follows.multiline {st : SmtpState} {p : SmtpParserState} {cur : Option SmtpCommand}
    {d : SmtpDialogue} (hf : Follows st p cur d) (multiline : Bool) :
    Follows st { p with parsingMultilineReply := multiline } cur d where
  buffer := hf.buffer
  greeted := hf.greeted
  early := hf.early
  held := hf.held
  reading := by
    have hreading := hf.reading
    cases hr : d.reading <;> rw [hr] at hreading <;> exact hreading
  waiting := hf.waiting
  asked := hf.asked

theorem greeting_follows {e : SmtpEntry} {d : SmtpDialogue} {line : CurrLine}
    (hf : Follows e.state e.parserState e.currentCommand d) (hgreeted : d.greeted = false)
    (hlen : 3 ≤ line.data.length) (replying : Option (List UInt8)) :
    ∃ e', smtpProcessReply e line = some e' ∧
      Follows e'.state e'.parserState e'.currentCommand
        { d with greeted := !smtpMultilineReply line, replying := replying } := by
  obtain ⟨hnil, hr⟩ := hf.early hgreeted
  have hidx : e.state.cmdsIdx = e.state.cmdsCnt := hf.buffer.nil_iff.1 hnil
  have hseen : e.parserState.firstReplySeen = false := hf.greeted.trans hgreeted
  have hmode : e.parserState.commandDataMode = false := by
    have h := hf.reading
    rw [hr] at h
    exact h
  have hflags := fun h => (hf.asked h).2
  simp only [smtpProcessReply, if_neg (not_lt.2 hlen), if_pos hidx, hseen]
  cases hmulti : smtpMultilineReply line <;>
    refine ⟨_, rfl, ⟨hf.buffer, ?_, fun _ => ⟨hnil, hr⟩, hf.held, ?_, hf.waiting, fun h =>
      ⟨hr, hflags h⟩⟩⟩
  · rfl
  · simp only [hr]
    exact hmode
  · rfl
  · simp only [hr]
    exact hmode

theorem readingAfter_eq {c : SmtpCommand} {code : List UInt8}
    (htls : ¬(c = .starttls ∧ code = bytesOf "220")) (last : Bool) (r : SmtpReading) :
    SmtpDialogue.readingAfter c code last r =
      if c = .data ∧ code = bytesOf "354" then .mail else r := by
  have hnot : ¬(c = .starttls ∧ code = bytesOf "220" ∧ last) := fun h => htls ⟨h.1, h.2.1⟩
  simp only [SmtpDialogue.readingAfter, if_neg hnot]

theorem reading_follows {st st' : SmtpState} {p : SmtpParserState} {cur : Option SmtpCommand}
    {d : SmtpDialogue} {line : CurrLine} {c : SmtpCommand} {rest q : List SmtpCommand} {last : Bool}
    (hf : Follows st p cur d) (hp : d.pending = c :: rest)
    (hst : st'.bdatChunkIdx = st.bdatChunkIdx ∧ st'.bdatChunkLen = st.bdatChunkLen)
    (hq : q = c :: rest ∨ q = rest)
    (htls : ¬(c = .starttls ∧ line.data.take 3 = bytesOf "220")) :
    ReadingFollowed st' (smtpReplyState (some c) (smtpGetReplyCode line) p) cur q
      (SmtpDialogue.readingAfter c (line.data.take 3) last d.reading) := by
  have hdecoded := hf.reading
  rw [readingAfter_eq htls]
  split
  · rename_i hdata
    obtain ⟨rfl, hcode⟩ := hdata
    obtain ⟨rfl, hcur, -⟩ := hf.alone hp rfl
    exact ⟨by simp [smtpReplyState, (reply354_iff line).2 hcode], hcur, hq.symm⟩
  · rename_i hdata
    have hmode : (smtpReplyState (some c) (smtpGetReplyCode line) p).commandDataMode =
        p.commandDataMode := by
      cases c with
      | data =>
        have hne : smtpGetReplyCode line ≠ smtpReply354 := fun h =>
          hdata ⟨rfl, (reply354_iff line).1 h⟩
        simp [smtpReplyState, hne]
      | auth =>
        simp only [smtpReplyState]
        split <;> rfl
      | _ => rfl
    cases hr : d.reading with
    | command =>
      rw [hr] at hdecoded
      exact hmode.trans hdecoded
    | mail =>
      rw [hr] at hdecoded
      obtain ⟨hon, hcur, hpending⟩ := hdecoded
      refine ⟨hmode.trans hon, hcur, ?_⟩
      rw [hp] at hpending
      obtain ⟨rfl, rfl⟩ : c = .data ∧ rest = [] := by simpa using hpending
      exact hq.symm
    | chunk left =>
      rw [hr] at hdecoded
      obtain ⟨hon, hcur, hpos, hsum, hlt⟩ := hdecoded
      exact ⟨hmode.trans hon, hcur, hpos, by rw [hst.1, hst.2, hsum], by rwa [hst.2]⟩
    | tls =>
      rw [hr] at hdecoded
      exact hdecoded.elim

theorem reply_follows {e : SmtpEntry} {d : SmtpDialogue} {line : CurrLine} {c : SmtpCommand}
    {rest : List SmtpCommand} (hf : Follows e.state e.parserState e.currentCommand d)
    (hgreeted : d.greeted) (hp : d.pending = c :: rest) (hlen : 3 ≤ line.data.length)
    (htls : ¬(c = .starttls ∧ line.data.take 3 = bytesOf "220")) (replying : Option (List UInt8)) :
    ∃ e', smtpProcessReply e line = some e' ∧
      Follows e'.state e'.parserState e'.currentCommand
        { greeted := true
          replying := replying
          asked := d.asked || (!smtpMultilineReply line && c = .auth &&
            line.data.take 3 = bytesOf "334")
          pending := if !smtpMultilineReply line then rest else c :: rest
          reading := SmtpDialogue.readingAfter c (line.data.take 3) (!smtpMultilineReply line)
            d.reading } := by
  have hm := hf.multiline (smtpMultilineReply line)
  have hbuf : BufferHolds e.state.cmds e.state.cmdsIdx e.state.cmdsCnt (c :: rest) := hp ▸ hf.buffer
  obtain ⟨hlt, hget, -⟩ := hbuf.head
  have hnot : ¬(some c = some SmtpCommand.starttls ∧ smtpGetReplyCode line = smtpReply220) :=
    fun h => htls ⟨Option.some.inj h.1, (reply220_iff line).1 h.2⟩
  have hasked : d.asked = false := by
    by_contra h
    have hnil := (hf.asked (by simpa using h)).2.1
    simp [hp] at hnil
  have hbuffer : BufferHolds e.state.cmds
      (if (if smtpMultilineReply line then e.state.cmdsIdx else e.state.cmdsIdx + 1) =
        e.state.cmdsCnt
        then 0 else if smtpMultilineReply line then e.state.cmdsIdx else e.state.cmdsIdx + 1)
      (if (if smtpMultilineReply line then e.state.cmdsIdx else e.state.cmdsIdx + 1) =
        e.state.cmdsCnt
        then 0 else e.state.cmdsCnt)
      (if !smtpMultilineReply line then rest else c :: rest) := by
    cases smtpMultilineReply line with
    | true => simpa [hlt.ne] using hbuf
    | false => simpa using hbuf.pop
  have hq : (if !smtpMultilineReply line then rest else c :: rest) = c :: rest ∨
      (if !smtpMultilineReply line then rest else c :: rest) = rest := by
    split
    · exact .inr rfl
    · exact .inl rfl
  simp only [smtpProcessReply, if_neg (not_lt.2 hlen), if_neg hlt.ne, hget, Option.join_some,
    if_neg hnot]
  refine ⟨_, rfl, hbuffer, ?_, fun h => absurd h (by simp), ?_, ?_, ?_, ?_⟩
  · have hseen := hf.greeted.trans hgreeted
    cases c <;> simp only [smtpReplyState] <;> first | exact hseen | (split <;> exact hseen)
  · intro c' hmem
    refine hf.held c' ?_
    rw [hp]
    rcases hq with hq | hq <;> rw [hq] at hmem
    · exact hmem
    · have hne : rest ≠ [] := fun h => by simp [h] at hmem
      rw [List.dropLast_cons_of_ne_nil hne]
      exact List.mem_cons_of_mem c hmem
  · exact reading_follows hm hp ⟨rfl, rfl⟩ hq htls
  · intro c' hlast hholds
    have hlast' : d.pending.getLast? = some c' := by
      rcases hq with hq | hq <;> rw [hq] at hlast
      · rwa [hp]
      · rw [hp, List.getLast?_cons, hlast]
        rfl
    obtain ⟨hcur, hreading⟩ := hf.waiting c' hlast' hholds
    refine ⟨hcur, ?_⟩
    show SmtpDialogue.readingAfter _ _ _ _ = _ ∨ SmtpDialogue.readingAfter _ _ _ _ = _ ∧ _
    rw [readingAfter_eq htls]
    by_cases hdata : c = .data ∧ line.data.take 3 = bytesOf "354"
    · rw [if_pos hdata]
      obtain ⟨rfl, -⟩ := hdata
      obtain ⟨rfl, -⟩ := hf.alone hp rfl
      exact .inr ⟨rfl, by simpa [hp] using hlast'.symm⟩
    · rw [if_neg hdata]
      exact hreading
  · intro h
    simp only [hasked, Bool.false_or, Bool.and_eq_true, decide_eq_true_eq] at h
    obtain ⟨⟨hlast, rfl⟩, hcode⟩ := h
    obtain ⟨rfl, hcur, hreading⟩ := hf.alone hp rfl
    refine ⟨?_, by simp [hlast], hcur, ?_⟩
    · have hread := readingAfter_eq htls (!smtpMultilineReply line) d.reading
      rw [if_neg (by simp)] at hread
      exact hread.trans (by simpa using hreading)
    · simp only [smtpReplyState, (reply334_iff line).2 hcode, true_and]
      split
      · exact .inl rfl
      · rename_i hflags
        simpa [or_iff_not_imp_left] using hflags

theorem server_follows {e : SmtpEntry} {d d' : SmtpDialogue} {line : CurrLine}
    (hf : Follows e.state e.parserState e.currentCommand d) (htaken : stepTaken e d (.server, line))
    (hd : d.server line = some d') :
    ∃ e', smtpProcessReply e line = some e' ∧
      Follows e'.state e'.parserState e'.currentCommand d' := by
  unfold SmtpDialogue.server at hd
  cases hcode : SmtpDialogue.replyCode line with
  | none => simp [hcode] at hd
  | some code =>
    obtain ⟨rfl, hlen⟩ := replyCode_eq_some hcode
    simp only [hcode] at hd
    split at hd
    · cases hd
    · split at hd
      · rename_i hgreeted
        obtain rfl := Option.some.inj hd
        exact greeting_follows hf (by simpa using hgreeted) hlen _
      · rename_i hgreeted
        cases hp : d.pending with
        | nil => simp [hp] at hd
        | cons c rest =>
          have htls : ¬(c = .starttls ∧ line.data.take 3 = bytesOf "220") := by
            simpa [stepTaken, hp, hcode, imp_iff_not_or] using htaken
          rw [hp] at hd
          obtain rfl := Option.some.inj hd
          exact reply_follows hf (by simpa using hgreeted) hp hlen htls _

theorem follows_init : Follows SmtpEntry.init.state SmtpEntry.init.parserState
    SmtpEntry.init.currentCommand .init where
  buffer := .init
  greeted := rfl
  early := fun _ => ⟨rfl, rfl⟩
  held := by simp [SmtpDialogue.init]
  reading := rfl
  waiting := by simp [SmtpDialogue.init]
  asked := fun h => by cases h

theorem step_follows {e : SmtpEntry} {d d' : SmtpDialogue} {ev : Side × CurrLine}
    (hf : Follows e.state e.parserState e.currentCommand d) (htaken : stepTaken e d ev)
    (hd : d.step ev = some d') :
    ∃ e', smtpLine ev.1 e ev.2 = some e' ∧
      Follows e'.state e'.parserState e'.currentCommand d' := by
  obtain ⟨side, line⟩ := ev
  cases side with
  | client => exact client_follows hf htaken hd
  | server => exact server_follows hf htaken hd

theorem run_follows {lines : List (Side × CurrLine)} {e : SmtpEntry} {d d' : SmtpDialogue}
    (hf : Follows e.state e.parserState e.currentCommand d) (htaken : stepsTaken e d lines)
    (hd : d.run lines = some d') :
    ∃ e', lines.foldlM (fun e ev => smtpLine ev.1 e ev.2) e = some e' ∧
      Follows e'.state e'.parserState e'.currentCommand d' := by
  induction lines generalizing e d with
  | nil =>
    obtain rfl := Option.some.inj hd
    exact ⟨e, rfl, hf⟩
  | cons ev lines ih =>
    obtain ⟨hstep, hsteps⟩ := Bool.and_eq_true_iff.1 htaken
    obtain ⟨d₁, hd₁, hrest⟩ := Option.bind_eq_some_iff.1 hd
    obtain ⟨e₁, he₁, hf₁⟩ := step_follows hf hstep hd₁
    rw [he₁, hd₁] at hsteps
    obtain ⟨e', he', hf'⟩ := ih hf₁ hsteps hrest
    exact ⟨e', by simp [List.foldlM_cons, he₁, he'], hf'⟩

/-- Along every dialogue whose steps meet the condition, in whatever segments its bytes
arrive, the parser goes on and the command buffer is the sequence of commands that were sent
and are not yet answered; the data mode is entered with the reply 354 to `DATA` and with
`BDAT`, and left with the mail or the chunk. -/
theorem commands_matched {segs : List (Side × List UInt8)} {d : SmtpDialogue}
    (hd : SmtpDialogue.init.run (lineEvents (fun _ => []) segs) = some d)
    (htaken : stepsTaken .init .init (lineEvents (fun _ => []) segs)) :
    ∃ c, (MailConn.init SmtpEntry.init).run smtpLine segs = some c ∧ Matched c.entry d := by
  obtain ⟨e, he, hf⟩ := run_follows follows_init htaken hd
  have hrun := run_init smtpLine SmtpEntry.init segs
  rw [he] at hrun
  obtain ⟨c, hc, rfl⟩ := Option.map_eq_some_iff.1 hrun
  exact ⟨c, hc, hf.matched⟩

/-- A mail whose envelope and `DATA` are sent in one segment. -/
def pipelinedMail : List (Side × List UInt8) :=
  [(.server, bytesOf "220 mx\r\n"),
    (.client, bytesOf "EHLO c\r\n"),
    (.server, bytesOf "250-mx\r\n250 PIPELINING\r\n"),
    (.client, bytesOf "MAIL FROM:<a>\r\nRCPT TO:<b>\r\nDATA\r\n"),
    (.server, bytesOf "250 ok\r\n250 ok\r\n354 go on\r\n"),
    (.client, bytesOf "Subject: x\r\n\r\ny\r\n.\r\nQUIT\r\n")]

theorem pipelinedMail_matched : ∃ c d,
    SmtpDialogue.init.run (lineEvents (fun _ => []) pipelinedMail) = some d ∧
      (MailConn.init SmtpEntry.init).run smtpLine pipelinedMail = some c ∧
      d.pending = [.dataMode, .quit] ∧ Matched c.entry d := by
  have hd : SmtpDialogue.init.run (lineEvents (fun _ => []) pipelinedMail) =
      some ⟨true, none, false, [.dataMode, .quit], .command⟩ := by decide +kernel
  obtain ⟨c, hc, hmatched⟩ := commands_matched hd (by decide +kernel)
  exact ⟨c, _, hd, hc, rfl, hmatched⟩

/-- The envelope of a mail to seven recipients, sent in one segment. -/
def sevenRecipients : List (Side × List UInt8) :=
  [(.server, bytesOf "220 mx\r\n"),
    (.client, bytesOf "MAIL FROM:<a>\r\n" ++
      (List.replicate 7 (bytesOf "RCPT TO:<b>\r\n")).flatten)]

/-- The eighth command finds the buffer full, and the seven before it become zeros. -/
theorem sevenRecipients_not_matched : ∃ c d,
    SmtpDialogue.init.run (lineEvents (fun _ => []) sevenRecipients) = some d ∧
      (MailConn.init SmtpEntry.init).run smtpLine sevenRecipients = some c ∧
      d.pending = List.replicate 8 .otherCmd ∧
      pendingCommands c.entry = List.replicate 7 none ++ [some .otherCmd] ∧
      ¬Matched c.entry d := by
  let d : SmtpDialogue := ⟨true, none, false, List.replicate 8 .otherCmd, .command⟩
  have hd : SmtpDialogue.init.run (lineEvents (fun _ => []) sevenRecipients) = some d := by
    decide +kernel
  have hlost : (((MailConn.init SmtpEntry.init).run smtpLine sevenRecipients).map (·.entry)).any
      (fun e => pendingCommands e = List.replicate 7 none ++ [some .otherCmd] ∧ ¬Matched e d) := by
    rw [run_init]
    decide +kernel
  obtain ⟨e, he, hlost⟩ := (Option.any_eq_true _ _).1 hlost
  obtain ⟨c, hc, rfl⟩ := Option.map_eq_some_iff.1 he
  exact ⟨c, d, hd, hc, rfl, of_decide_eq_true hlost⟩

end CloudHands.Mail
