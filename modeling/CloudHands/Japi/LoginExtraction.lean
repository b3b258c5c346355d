import CloudHands.Japi.LoginParsers
import CloudHands.Tcp.PpDataInput

/-!
# Logins in captured streams

What the parsers take for a login of a stream of lines, and when that is the login that was sent.
-/

namespace CloudHands.Japi.Login

open Lib Http
open PpDataInput (dropCR take_lineLen)

section

variable {cs : Charset} {s : JString} {word bytes : List UInt8}

theorem charOf_toNat {c : UInt8} : (charOf c).toNat = c.toNat := by
  have hc := c.toNat_lt
  have hvalid : c.toNat.isValidChar := .inl (by omega)
  rw [charOf, Char.ofNat, dif_pos hvalid]
  rfl

theorem charOf_injective : Function.Injective charOf := by
  intro c d hchar
  have hnat := congrArg Char.toNat hchar
  rw [charOf_toNat, charOf_toNat] at hnat
  exact UInt8.toNat_inj.1 hnat

theorem latin1Bytes_ascii (word : List UInt8) : latin1Bytes (word.map charOf) = word := by
  induction word with
  | nil => rfl
  | cons c word ih =>
    have hc := c.toNat_lt
    rw [List.map_cons, latin1Bytes, List.map_cons, charOf_toNat, if_pos (by omega),
      UInt8.ofNat_toNat]
    exact congrArg (c :: ·) ih

theorem Charset.decode_cons {c : UInt8} (hc : c < 128) (bytes : List UInt8) :
    cs.decode (c :: bytes) = charOf c :: cs.decode bytes := by
  have hdecode := cs.decode_ascii [] c bytes hc
  rw [cs.decode_nil] at hdecode
  exact hdecode

theorem Charset.decode_word (hword : ∀ c ∈ word, c < 128) (bytes : List UInt8) :
    cs.decode (word ++ bytes) = word.map charOf ++ cs.decode bytes := by
  induction word with
  | nil => rfl
  | cons c word ih =>
    obtain ⟨hc, hword⟩ := List.forall_mem_cons.1 hword
    rw [List.cons_append, cs.decode_cons hc, ih hword]
    rfl

theorem decodeBase64_code (cs : Charset) (bytes : List UInt8) :
    decodeBase64 cs ((Base64.encode bytes).map charOf) = some (cs.decode bytes) := by
  rw [decodeBase64, latin1Bytes_ascii, Base64.decode_encode]
  rfl

theorem trim_concat {c : Char} (hc : c ≤ ' ') (s : JString) : trim (s ++ [c]) = trim s := by
  rw [trim, trim, List.dropWhile_append]
  split_ifs with hempty
  · rw [List.isEmpty_iff] at hempty
    rw [hempty, List.dropWhile_cons_of_pos (by simpa using hc)]
    rfl
  · exact List.rdropWhile_concat_pos _ _ _ (by simpa using hc)

theorem trim_sublist (s : JString) : (trim s).Sublist s :=
  (List.rdropWhile_prefix _ _).sublist.trans (List.dropWhile_sublist _)

theorem trim_eq_self {a b : Char} (ha : ¬ a ≤ ' ') (hb : ¬ b ≤ ' ') (s : JString) :
    trim (a :: (s ++ [b])) = a :: (s ++ [b]) := by
  rw [trim, List.dropWhile_cons_of_neg (by simpa using ha), ← List.cons_append]
  exact List.rdropWhile_concat_neg _ _ _ (by simpa using hb)

theorem length_splitOn (s : JString) : (s.splitOn ' ').length = s.count ' ' + 1 := by
  induction s with
  | nil => rfl
  | cons c s ih =>
    rw [List.splitOn_cons_eq_if_modifyHead, List.count_cons]
    split_ifs
    · rw [List.length_cons, ih]
    · rw [List.length_modifyHead, ih]

theorem length_split_le (s : JString) : (split s).length ≤ s.count ' ' + 1 := by
  rw [split]
  split_ifs
  · exact Nat.le_add_left _ _
  · rw [← length_splitOn]
    exact (List.rdropWhile_prefix _ _).length_le

theorem exists_mem_splitOn {c : Char} (hc : c ∈ s) (hspace : c ≠ ' ') : ∃ part ∈ s.splitOn ' ',
    c ∈ part := by
  induction s with
  | nil => cases hc
  | cons d s ih =>
    rw [List.splitOn_cons_eq_if_modifyHead]
    split_ifs with hd
    · have hne : c ≠ d := fun heq => hspace (heq.trans (by simpa using hd))
      obtain ⟨part, hpart, hmem⟩ := ih ((List.mem_cons.1 hc).resolve_left hne)
      exact ⟨part, List.mem_cons_of_mem _ hpart, hmem⟩
    · obtain ⟨first, parts, hparts⟩ := List.exists_cons_of_ne_nil (List.splitOn_ne_nil ' ' s)
      rw [hparts, List.modifyHead_cons]
      rcases List.mem_cons.1 hc with rfl | hc
      · exact ⟨_, List.mem_cons_self, List.mem_cons_self⟩
      · obtain ⟨part, hpart, hmem⟩ := ih hc
        rw [hparts] at hpart
        rcases List.mem_cons.1 hpart with rfl | hpart
        · exact ⟨_, List.mem_cons_self, List.mem_cons_of_mem _ hmem⟩
        · exact ⟨part, List.mem_cons_of_mem _ hpart, hmem⟩

theorem exists_mem_split {c : Char} (hc : c ∈ s) (hspace : c ≠ ' ') :
    ∃ part ∈ split s, c ∈ part := by
  rw [split]
  split_ifs
  · exact ⟨s, List.mem_singleton_self s, hc⟩
  · obtain ⟨part, hpart, hmem⟩ := exists_mem_splitOn hc hspace
    rw [← List.rdropWhile_append_rtakeWhile (p := (· = [])) (l := s.splitOn ' '),
      List.mem_append] at hpart
    rcases hpart with hpart | hpart
    · exact ⟨part, hpart, hmem⟩
    · have hnil : part = [] := by simpa using List.mem_rtakeWhile_imp hpart
      rw [hnil] at hmem
      cases hmem

end

structure TextLine where
  text : List UInt8
  crlf : Bool
  noLF : LF ∉ text

namespace TextLine

def bytes (line : TextLine) : List UInt8 := line.text ++ if line.crlf then [CR, LF] else [LF]

def read (cs : Charset) (line : TextLine) : JString := trim (cs.decode line.text)

end TextLine

def encodeLines (lines : List TextLine) : List UInt8 := lines.flatMap TextLine.bytes

def isPlainLine (line : JString) : Bool := startsWith line "AUTH PLAIN".toList

inductive Expected
  | command
  | user
  | passwd
  | mailFrom
deriving DecidableEq, Repr

def Expected.next (line : JString) : Expected → Expected
  | .command =>
    if startsWith line "AUTH LOGIN".toList then .user
    else if startsWith line "MAIL FROM".toList then .mailFrom
    else .command
  | .user => .passwd
  | .passwd | .mailFrom => .command

def linesFor (want : Expected) : Expected → List JString → List JString
  | _, [] => []
  | e, line :: lines => (if e = want then [line] else []) ++ linesFor want (e.next line) lines

section

variable {cs : Charset} {lines : List TextLine} {fuel : ℕ}

theorem trim_decode_dropCR (cs : Charset) (text : List UInt8) :
    trim (cs.decode (dropCR text)) = trim (cs.decode text) := by
  rw [dropCR]
  split_ifs with hlast
  · obtain ⟨start, rfl⟩ := List.getLast?_eq_some_iff.1 hlast
    rw [List.dropLast_concat, cs.decode_ascii start CR [] (by decide), cs.decode_nil]
    exact (trim_concat (by decide) _).symm
  · rfl

theorem readLine_line (cs : Charset) (line : TextLine) (rest : List UInt8) :
    readLine cs (line.bytes ++ rest) = some (line.read cs, rest) := by
  have hread {text : List UInt8} (htext : LF ∉ text) :
      readLine cs (text ++ LF :: rest) = some (trim (cs.decode text), rest) := by
    obtain ⟨raw, hraw, htake⟩ := take_lineLen rest htext
    rw [readLine, hraw, Option.map_some, htake, trim_decode_dropCR]
  rw [TextLine.bytes, List.append_assoc, TextLine.read]
  cases line.crlf with
  | false => exact hread line.noLF
  | true =>
    have hcr : LF ∉ line.text ++ [CR] := by
      rw [List.mem_append, not_or]
      exact ⟨line.noLF, by decide⟩
    have hline := hread hcr
    rw [cs.decode_ascii line.text CR [] (by decide), cs.decode_nil, List.append_assoc] at hline
    rw [← trim_concat (c := charOf CR) (by decide)]
    exact hline

theorem length_le_encodeLines (lines : List TextLine) :
    lines.length ≤ (encodeLines lines).length := by
  induction lines with
  | nil => exact Nat.zero_le _
  | cons line lines ih =>
    have hpos : 0 < line.bytes.length := by
      rw [TextLine.bytes, List.length_append]
      cases line.crlf <;> exact Nat.add_pos_right _ (by decide)
    rw [encodeLines, List.flatMap_cons, List.length_append, List.length_cons]
    rw [encodeLines] at ih
    omega

theorem pop3Loop_lines (hfuel : lines.length ≤ fuel) (r : JString × JString) :
    pop3Loop cs fuel (encodeLines lines) r = (lines.map (·.read cs)).foldl pop3Line r := by
  induction lines generalizing fuel r with
  | nil => cases fuel <;> rfl
  | cons line lines ih =>
    obtain ⟨fuel, rfl⟩ : ∃ n, fuel = n + 1 := ⟨fuel - 1, by rw [List.length_cons] at hfuel; omega⟩
    rw [encodeLines, List.flatMap_cons, pop3Loop, readLine_line]
    exact ih (Nat.le_of_succ_le_succ hfuel) (pop3Line r (line.read cs))

theorem authPlainLoop_lines (hfuel : lines.length ≤ fuel) :
    authPlainLoop cs fuel (encodeLines lines) =
      ((lines.map (·.read cs)).find? isPlainLine).elim (some ([], [])) (authPlainLine cs) := by
  induction lines generalizing fuel with
  | nil => cases fuel <;> rfl
  | cons line lines ih =>
    obtain ⟨fuel, rfl⟩ : ∃ n, fuel = n + 1 := ⟨fuel - 1, by rw [List.length_cons] at hfuel; omega⟩
    have hrest := @ih fuel (Nat.le_of_succ_le_succ hfuel)
    rw [encodeLines] at hrest
    rw [encodeLines, List.flatMap_cons, authPlainLoop, readLine_line, List.map_cons,
      List.find?_cons]
    simp only
    split_ifs with hempty hplain
    · have hnot : isPlainLine (line.read cs) = false := by
        rw [hempty]
        rfl
      simp only [hnot, hrest]
    · have hline : isPlainLine (line.read cs) = true := hplain
      simp only [hline]
      rfl
    · have hline : isPlainLine (line.read cs) = false := Bool.eq_false_iff.2 hplain
      simp only [hline, hrest]

def readAs (cs : Charset) : Expected → AuthLogin → JString → AuthLogin
  | .command, r, _ => r
  | .user, r, line => { r with user := decodeBase64 cs line }
  | .passwd, r, line => { r with passwd := decodeBase64 cs line }
  | .mailFrom, r, line => { r with mailFrom := line }

def readAll (cs : Charset) : Expected → AuthLogin → List JString → AuthLogin
  | _, r, [] => r
  | e, r, line :: lines => readAll cs (e.next line) (readAs cs e r line) lines

theorem authLoginLoop_lines (hfuel : lines.length ≤ fuel) (r : AuthLogin) :
    authLoginLoop cs fuel (encodeLines lines) r =
      readAll cs .command r (lines.map (·.read cs)) := by
  induction fuel generalizing lines r with
  | zero =>
    obtain rfl := List.length_eq_zero_iff.1 (Nat.le_zero.1 hfuel)
    rfl
  | succ fuel ih =>
    cases lines with
    | nil => rfl
    | cons line lines =>
      rw [List.length_cons] at hfuel
      have hrest {lines : List TextLine} (hlen : lines.length ≤ fuel) (r : AuthLogin) :
          authLoginLoop cs fuel (lines.flatMap TextLine.bytes) r =
            readAll cs .command r (lines.map (·.read cs)) := ih hlen r
      rw [encodeLines, List.flatMap_cons, authLoginLoop, readLine_line, List.map_cons, readAll]
      simp only [readAs, Expected.next]
      split_ifs with hempty hlogin hmail hlogin hmail
      · rw [hempty] at hlogin
        cases hlogin
      · rw [hempty] at hmail
        cases hmail
      · exact hrest (Nat.le_of_succ_le_succ hfuel) r
      · obtain _ | ⟨user, _ | ⟨passwd, lines⟩⟩ := lines
        · exact hrest (Nat.zero_le _) r
        · rw [List.flatMap_cons, readLine_line]
          exact hrest (Nat.zero_le _) _
        · rw [List.flatMap_cons, readLine_line, List.flatMap_cons]
          simp only [readLine_line]
          refine hrest ?_ _
          simp only [List.length_cons] at hfuel
          omega
      · obtain _ | ⟨mailFrom, lines⟩ := lines
        · exact hrest (Nat.zero_le _) r
        · rw [List.flatMap_cons, readLine_line]
          refine hrest ?_ _
          simp only [List.length_cons] at hfuel
          omega
      · exact hrest (Nat.le_of_succ_le_succ hfuel) r

end

def isArgLine (keyword : List UInt8) (line : TextLine) : Bool :=
  (keyword ++ [32]).isPrefixOf line.text && decide (32 ∉ line.text.drop (keyword.length + 1))

def lastArg (keyword : List UInt8) (lines : List TextLine) : Option (List UInt8) :=
  ((lines.filter (isArgLine keyword)).getLast?).map fun line => line.text.drop (keyword.length + 1)

structure POP3Stream where
  lines : List TextLine
  user : List UInt8
  passwd : List UInt8
  lastUser : lastArg (bytesOf "USER") lines = some user
  lastPasswd : lastArg (bytesOf "PASS") lines = some passwd

def isLong (keyword line : JString) :
    Bool := startsWith line keyword && decide (2 < (split line).length)

/-- The last line of the keyword with three fields has the value as its second; it is empty when
there is none. -/
def SecondField (keyword : JString) (lines : List JString) (value : JString) : Prop :=
  ((lines.filter (isLong keyword)).getLast?).elim (value = []) fun line =>
    (split line).getD 1 [] = value

/-- The lines of a stream that are not a keyword and one argument. -/
def othersRead (cs : Charset) (keyword : List UInt8) (lines : List TextLine) : List JString :=
  (lines.filter fun line => !isArgLine keyword line).map (·.read cs)

section

variable {cs : Charset} {keyword : List UInt8}

theorem getLast?_elim_concat {α β : Type*} (lines : List α) (line : α) (b : β) (f : α → β) :
    ((lines ++ [line]).getLast?).elim b f = f line := by
  rw [List.getLast?_concat]
  rfl

def lastField (keyword : JString) (lines : List JString) (old : JString) : JString :=
  ((lines.filter (isLong keyword)).getLast?).elim old fun line => (split line).getD 1 []

theorem lastField_concat (keyword : JString) (lines : List JString) (line old : JString) :
    lastField keyword (lines ++ [line]) old =
      if startsWith line keyword then fieldOf line (lastField keyword lines old)
      else lastField keyword lines old := by
  rw [lastField, List.filter_append, fieldOf]
  by_cases hlong : isLong keyword line
  · obtain ⟨hstart, hlen⟩ := Bool.and_eq_true_iff.1 hlong
    rw [List.filter_cons_of_pos hlong, List.filter_nil, getLast?_elim_concat, if_pos hstart,
      if_pos (of_decide_eq_true hlen)]
  · rw [List.filter_cons_of_neg hlong, List.filter_nil, List.append_nil]
    split_ifs with hstart hlen
    · exact absurd (Bool.and_eq_true_iff.2 ⟨hstart, decide_eq_true hlen⟩) hlong
    · rfl
    · rfl

theorem pop3_foldl (lines : List JString) (r : JString × JString) :
    lines.foldl pop3Line r =
      (lastField "USER".toList lines r.1, lastField "PASS".toList lines r.2) := by
  induction lines using List.reverseRecOn with
  | nil => rfl
  | append_singleton lines line ih =>
    have happart : startsWith line "USER".toList → ¬ startsWith line "PASS".toList := by
      intro huser hpass
      obtain ⟨user, huser⟩ := List.isPrefixOf_iff_prefix.1 huser
      obtain ⟨passwd, hpass⟩ := List.isPrefixOf_iff_prefix.1 hpass
      have hsame : "USER".toList = "PASS".toList :=
        List.append_inj_left (huser.trans hpass.symm) rfl
      exact absurd hsame (by decide)
    rw [List.foldl_concat, ih, pop3Line, lastField_concat, lastField_concat]
    split_ifs with huser hpass
    · exact absurd hpass (happart huser)
    · rfl
    · rfl
    · rfl

theorem lastField_eq_iff (keyword : JString) (lines : List JString) (value : JString) :
    lastField keyword lines [] = value ↔ SecondField keyword lines value := by
  rw [lastField, SecondField]
  cases (lines.filter (isLong keyword)).getLast? with
  | none => exact eq_comm
  | some line => exact Iff.rfl

theorem not_isLong_of_isArgLine (hascii : ∀ c ∈ keyword, c < 128) (hspace : 32 ∉ keyword)
    {line : TextLine} (harg : isArgLine keyword line) (start : JString) :
    ¬ isLong start (line.read cs) := by
  obtain ⟨hstart, harg⟩ := Bool.and_eq_true_iff.1 harg
  obtain ⟨arg, htext⟩ := List.isPrefixOf_iff_prefix.1 hstart
  have hdrop : line.text.drop (keyword.length + 1) = arg := by
    rw [← htext, List.drop_left' (by simp)]
  rw [hdrop] at harg
  have hcount : (cs.decode line.text).count ' ' = 1 := by
    have hchar : charOf 32 = ' ' := by decide
    have hspaces : ' ' ∉ keyword.map charOf := by
      rw [← hchar, List.mem_map_of_injective charOf_injective]
      exact hspace
    have hargs : ' ' ∉ cs.decode arg := fun hmem =>
      of_decide_eq_true harg (cs.mem_of_ascii arg 32 (by decide) hmem)
    rw [← htext, List.append_assoc, cs.decode_word hascii, List.singleton_append,
      cs.decode_cons (by decide), List.count_append, List.count_eq_zero.2 hspaces]
    rw [hchar, List.count_cons_self, List.count_eq_zero.2 hargs]
  intro hlong
  have hlen := of_decide_eq_true (Bool.and_eq_true_iff.1 hlong).2
  have hsplit := length_split_le (line.read cs)
  have htrim := (trim_sublist (cs.decode line.text)).count_le ' '
  rw [TextLine.read] at hlen hsplit
  omega

theorem secondField_others (hascii : ∀ c ∈ keyword, c < 128) (hspace : 32 ∉ keyword)
    (start : JString)
    (lines : List TextLine) (value : JString) :
    SecondField start (lines.map (·.read cs)) value ↔
      SecondField start (othersRead cs keyword lines) value := by
  have hsame : (lines.map (·.read cs)).filter (isLong start) =
      (othersRead cs keyword lines).filter (isLong start) := by
    induction lines with
    | nil => rfl
    | cons line lines ih =>
      rw [othersRead] at ih
      by_cases harg : isArgLine keyword line
      · rw [othersRead, List.filter_cons_of_neg (by simpa using harg), List.map_cons,
          List.filter_cons_of_neg (not_isLong_of_isArgLine hascii hspace harg start), ih]
      · rw [othersRead, List.filter_cons_of_pos (by simpa using harg), List.map_cons, List.map_cons,
          List.filter_cons, List.filter_cons, ih]
  rw [SecondField, SecondField, hsame]

end

def Returns (css : Charsets) (entry : SessionEntry) (user passwd : JString) : Prop :=
  ∃ parserData, parseSMTP css entry = some parserData ∧ parserData.user = some user ∧
    parserData.passwd = some passwd

/-- The first line of `AUTH PLAIN` has three fields, and the code in the last of them has two. -/
def PlainFrom (cs : Charset) (lines : List JString) (user passwd : JString) : Prop :=
  ∃ line word verb code text, lines.find? isPlainLine = some line ∧
    split line = [word, verb, code] ∧ decodeBase64 cs code = some text ∧ split text = [user, passwd]

/-- The last of some lines is the code of the value; it is empty when there is none. -/
def LastDecodes (cs : Charset) (lines : List JString) (value : JString) : Prop :=
  (lines.getLast?).elim (value = []) fun line => decodeBase64 cs line = some value

section

variable {cs : Charset} {css : Charsets} {lines : List JString} {user passwd : JString}

theorem authPlainLine_eq_some {line : JString} : authPlainLine cs line = some (user, passwd) ↔
    ∃ word verb code text, split line = [word, verb, code] ∧ decodeBase64 cs code = some text ∧
      split text = [user, passwd] := by
  constructor
  · intro h
    rw [authPlainLine] at h
    split_ifs at h with hlen
    obtain ⟨word, verb, code, hsplit⟩ := List.length_eq_three.1 (not_not.1 hlen)
    rw [hsplit] at h
    cases hdecode : decodeBase64 cs code with
    | none => simp [hdecode] at h
    | some text =>
      simp only [List.getD_cons_succ, List.getD_cons_zero, hdecode] at h
      split_ifs at h with hempty hlen
      obtain ⟨first, second, hfields⟩ := List.length_eq_two.1 (not_not.1 hlen)
      rw [hfields] at h
      cases h
      exact ⟨word, verb, code, text, hsplit, hdecode, hfields⟩
  · rintro ⟨word, verb, code, text, hsplit, hdecode, hfields⟩
    have hempty : text ≠ [] := by
      rintro rfl
      cases hfields
    rw [authPlainLine, hsplit, if_neg (by simp)]
    simp only [List.getD_cons_succ, List.getD_cons_zero, hdecode, if_neg hempty, hfields]
    rfl

theorem readAll_field {field : AuthLogin → Option JString} {want : Expected}
    (hfield : ∀ e r line,
      field (readAs cs e r line) = if e = want then decodeBase64 cs line else field r)
    (e : Expected) (r : AuthLogin) (lines : List JString) :
    field (readAll cs e r lines) =
      ((linesFor want e lines).getLast?).elim (field r) (decodeBase64 cs) := by
  induction lines generalizing e r with
  | nil => rfl
  | cons line lines ih =>
    rw [readAll, ih, linesFor, List.getLast?_append, hfield]
    cases (linesFor want (e.next line) lines).getLast? with
    | some last => rfl
    | none => split_ifs <;> rfl

theorem readAs_user (e : Expected) (r : AuthLogin) (line : JString) :
    (readAs cs e r line).user = if e = .user then decodeBase64 cs line else r.user := by
  cases e <;> rfl

theorem readAs_passwd (e : Expected) (r : AuthLogin) (line : JString) :
    (readAs cs e r line).passwd = if e = .passwd then decodeBase64 cs line else r.passwd := by
  cases e <;> rfl

theorem lastDecodes_iff : ((lines.getLast?).elim (some []) (decodeBase64 cs)) = some user ↔
    LastDecodes cs lines user := by
  rw [LastDecodes]
  cases lines.getLast? with
  | none => exact ⟨fun h => (Option.some.inj h).symm, fun h => congrArg some h.symm⟩
  | some line => exact Iff.rfl

theorem returns_iff {entry : SessionEntry} : Returns css entry user passwd ↔
    ∃ parserData, parseSMTPRequest css entry.reqContent = some parserData ∧
      parserData.user = some user ∧ parserData.passwd = some passwd := by
  rw [Returns, parseSMTP]
  cases parseSMTPRequest css entry.reqContent with
  | none => rfl
  | some parserData =>
    simp only [Option.map_some, Option.some.injEq, exists_eq_left']
    cases entry.resContent with
    | none => rfl
    | some res =>
      simp only
      split_ifs <;> rfl

theorem plainFrom_iff : PlainFrom cs lines user passwd ↔
    ∃ line, lines.find? isPlainLine = some line ∧ authPlainLine cs line = some (user, passwd) := by
  constructor
  · rintro ⟨line, word, verb, code, text, hfind, hfields⟩
    exact ⟨line, hfind, authPlainLine_eq_some.2 ⟨word, verb, code, text, hfields⟩⟩
  · rintro ⟨line, hfind, hline⟩
    obtain ⟨word, verb, code, text, hfields⟩ := authPlainLine_eq_some.1 hline
    exact ⟨line, word, verb, code, text, hfind, hfields⟩

theorem returns_plain {lines : List TextLine} {res : Option (List UInt8)}
    (hplain : isAuthPlain (css.content.decode (encodeLines lines))) :
    Returns css ⟨encodeLines lines, res⟩ user passwd ↔
      PlainFrom css.platform (lines.map (·.read css.platform)) user passwd ∨
        ((∀ line ∈ lines, ¬ isPlainLine (line.read css.platform)) ∧ user = [] ∧ passwd = []) := by
  have hnone : (∀ line ∈ lines, ¬ isPlainLine (line.read css.platform)) ↔
      (lines.map (·.read css.platform)).find? isPlainLine = none := by
    rw [List.find?_eq_none, List.forall_mem_map]
  rw [returns_iff, parseSMTPRequest, plainFrom_iff, hnone]
  simp only [if_pos hplain, authPlainLoop_lines (length_le_encodeLines lines)]
  cases (lines.map (·.read css.platform)).find? isPlainLine with
  | none =>
    constructor
    · rintro ⟨parserData, hdata, huser, hpasswd⟩
      cases hdata
      exact .inr ⟨rfl, (Option.some.inj huser).symm, (Option.some.inj hpasswd).symm⟩
    · rintro (⟨line, hline, -⟩ | ⟨-, rfl, rfl⟩)
      · cases hline
      · exact ⟨_, rfl, rfl, rfl⟩
  | some line =>
    constructor
    · rintro ⟨parserData, hdata, huser, hpasswd⟩
      obtain ⟨r, hline, rfl⟩ := Option.map_eq_some_iff.1 hdata
      refine .inl ⟨line, rfl, hline.trans ?_⟩
      rw [← Option.some.inj huser, ← Option.some.inj hpasswd]
    · rintro (⟨line', hline, hfields⟩ | ⟨hline, -⟩)
      · cases hline
        exact ⟨_, congrArg _ hfields, rfl, rfl⟩
      · cases hline

theorem returns_login {lines : List TextLine} {res : Option (List UInt8)}
    (hplain : ¬ isAuthPlain (css.content.decode (encodeLines lines))) :
    Returns css ⟨encodeLines lines, res⟩ user passwd ↔
      LastDecodes css.platform (linesFor .user .command (lines.map (·.read css.platform))) user ∧
        LastDecodes css.platform (linesFor .passwd .command (lines.map (·.read css.platform)))
          passwd := by
  rw [returns_iff, parseSMTPRequest]
  simp only [if_neg hplain, authLoginLoop_lines (length_le_encodeLines lines),
    readAll_field readAs_user,
    readAll_field readAs_passwd]
  rw [← lastDecodes_iff, ← lastDecodes_iff]
  simp

end

theorem ascii_of_all {word : List UInt8} (hword : word.all (decide <| · < 128)) :
    ∀ c ∈ word, c < 128 :=
  fun c hc => of_decide_eq_true (List.all_eq_true.1 hword c hc)

theorem code_noLF (bytes : List UInt8) : LF ∉ Base64.encode bytes :=
  fun hc => absurd (Base64.graphic_of_mem_encode hc).1 (by decide)

/-- The message of `AUTH PLAIN`. -/
def plainMessage (authzid user passwd : List UInt8) : List UInt8 :=
  authzid ++ 0 :: (user ++ 0 :: passwd)

def plainText (authzid user passwd : List UInt8) : List UInt8 :=
  bytesOf "AUTH PLAIN" ++ 32 :: Base64.encode (plainMessage authzid user passwd)

theorem plainText_noLF (authzid user passwd : List UInt8) : LF ∉ plainText authzid user passwd := by
  rw [plainText, List.mem_append, List.mem_cons]
  rintro (hc | hc | hc)
  · exact absurd hc (by decide)
  · exact absurd hc (by decide)
  · exact code_noLF _ hc

/-- A stream with a line of `AUTH PLAIN`. -/
structure AuthPlainStream where
  before : List TextLine
  after : List TextLine
  crlf : Bool
  authzid : List UInt8
  user : List UInt8
  passwd : List UInt8
  user_noNUL : 0 ∉ user
  passwd_noNUL : 0 ∉ passwd

def AuthPlainStream.line (s : AuthPlainStream) : TextLine :=
  ⟨plainText s.authzid s.user s.passwd, s.crlf, plainText_noLF s.authzid s.user s.passwd⟩

def AuthPlainStream.lines (s : AuthPlainStream) : List TextLine := s.before ++ s.line :: s.after

/-- A stream with a line of `AUTH LOGIN` and the two codes behind it. -/
structure AuthLoginStream where
  before : List TextLine
  after : List TextLine
  loginCrlf : Bool
  userCrlf : Bool
  passwdCrlf : Bool
  user : List UInt8
  passwd : List UInt8

def codeLine (bytes : List UInt8) (crlf : Bool) : TextLine :=
  ⟨Base64.encode bytes, crlf, code_noLF bytes⟩

theorem authLogin_noLF : LF ∉ bytesOf "AUTH LOGIN" := by decide

def loginLine (crlf : Bool) : TextLine := ⟨bytesOf "AUTH LOGIN", crlf, authLogin_noLF⟩

def AuthLoginStream.lines (s : AuthLoginStream) : List TextLine :=
  s.before ++ loginLine s.loginCrlf :: codeLine s.user s.userCrlf ::
    codeLine s.passwd s.passwdCrlf :: s.after

theorem read_asciiLine {cs : Charset} {text : List UInt8} {crlf : Bool} {noLF : LF ∉ text}
    (hascii : ∀ c ∈ text, c < 128) (hhead : ∀ c ∈ text.head?, 32 < c)
    (hlast : ∀ c ∈ text.getLast?, 32 < c) :
    (TextLine.mk text crlf noLF).read cs = text.map charOf := by
  have hgraphic {c : UInt8} (hc : 32 < c) : ¬ charOf c ≤ ' ' := by
    intro hle
    have hnat : (charOf c).toNat ≤ 32 := hle
    rw [charOf_toNat] at hnat
    exact absurd (UInt8.lt_iff_toNat_lt.1 hc) (Nat.not_lt.2 hnat)
  have hdecode := cs.decode_word hascii []
  rw [List.append_nil, cs.decode_nil, List.append_nil] at hdecode
  rw [TextLine.read, hdecode]
  obtain _ | ⟨a, rest⟩ := text
  · rfl
  cases rest using List.reverseRecOn with
  | nil =>
    have ha := hgraphic (hhead a rfl)
    rw [List.map_singleton, trim, List.dropWhile_cons_of_neg (by simpa using ha)]
    exact List.rdropWhile_concat_neg _ [] _ (by simpa using ha)
  | append_singleton rest b _ =>
    have ha := hgraphic (hhead a rfl)
    have hb := hgraphic (hlast b (by rw [← List.cons_append, List.getLast?_concat]; rfl))
    rw [List.map_cons, List.map_append, List.map_singleton]
    exact trim_eq_self ha hb _

theorem read_codeLine (cs : Charset) (bytes : List UInt8) (crlf : Bool) :
    (codeLine bytes crlf).read cs = (Base64.encode bytes).map charOf :=
  read_asciiLine (fun _ hc => (Base64.graphic_of_mem_encode hc).2)
    (fun _ hc => (Base64.graphic_of_mem_encode (List.mem_of_mem_head? hc)).1)
    (fun _ hc => (Base64.graphic_of_mem_encode (List.mem_of_getLast? hc)).1)

theorem plainMessage_ne_nil (authzid user passwd : List UInt8) :
    plainMessage authzid user passwd ≠ [] :=
  List.append_ne_nil_of_right_ne_nil _ (List.cons_ne_nil _ _)

theorem not_mem_code {c : UInt8} (hc : c ≤ 32) (bytes : List UInt8) :
    charOf c ∉ (Base64.encode bytes).map charOf := by
  rw [List.mem_map_of_injective charOf_injective]
  intro hmem
  exact absurd (Base64.graphic_of_mem_encode hmem).1 (UInt8.not_lt.2 hc)

theorem read_plainLine (cs : Charset) (s : AuthPlainStream) :
    s.line.read cs = "AUTH PLAIN".toList ++
      ' ' :: (Base64.encode (plainMessage s.authzid s.user s.passwd)).map charOf := by
  have hcode := Base64.encode_ne_nil (plainMessage_ne_nil s.authzid s.user s.passwd)
  have hword : ∀ c ∈ bytesOf "AUTH PLAIN", c < 128 := ascii_of_all (by decide)
  have hascii : ∀ c ∈ plainText s.authzid s.user s.passwd, c < 128 := by
    intro c hc
    rcases List.mem_append.1 hc with hc | hc
    · exact hword c hc
    · rcases List.mem_cons.1 hc with rfl | hc
      · decide
      · exact (Base64.graphic_of_mem_encode hc).2
  have hhead : ∀ c ∈ (plainText s.authzid s.user s.passwd).head?, 32 < c := by
    rintro c ⟨⟩
    decide
  have hlast : ∀ c ∈ (plainText s.authzid s.user s.passwd).getLast?, 32 < c := by
    intro c hc
    rw [plainText, ← List.singleton_append, ← List.append_assoc,
      List.getLast?_append_of_ne_nil _ hcode] at hc
    exact (Base64.graphic_of_mem_encode (List.mem_of_getLast? hc)).1
  rw [AuthPlainStream.line, read_asciiLine hascii hhead hlast, plainText, List.map_append,
    List.map_cons]
  rfl

theorem split_plainLine {code : JString} (hcode : code ≠ []) (hspace : ' ' ∉ code) :
    split ("AUTH PLAIN".toList ++ ' ' :: code) = ["AUTH".toList, "PLAIN".toList, code] := by
  have hparts : ("AUTH".toList ++ ' ' :: ("PLAIN".toList ++ ' ' :: code)).splitOn ' ' =
      ["AUTH".toList, "PLAIN".toList, code] := by
    rw [List.splitOn_append_cons_self_of_not_mem (by decide),
      List.splitOn_append_cons_self_of_not_mem (by decide), List.splitOn_eq_singleton hspace]
  have hline :
      "AUTH PLAIN".toList ++ ' ' :: code =
      "AUTH".toList ++ ' ' :: ("PLAIN".toList ++ ' ' :: code) :=
    rfl
  rw [hline, split, hparts, if_neg (by simp)]
  exact List.rdropWhile_concat_neg _ ["AUTH".toList, "PLAIN".toList] _ (by simpa using hcode)

theorem authPlainLine_own (cs : Charset) (s : AuthPlainStream) :
    isPlainLine (s.line.read cs) ∧
      authPlainLine cs (s.line.read cs) ≠ some (cs.decode s.user, cs.decode s.passwd) := by
  rw [read_plainLine]
  refine ⟨List.isPrefixOf_iff_prefix.2 ⟨_, rfl⟩, ?_⟩
  rw [Ne, authPlainLine_eq_some]
  rintro ⟨word, verb, code, text, hsplit, hdecode, hfields⟩
  have hcode : (Base64.encode (plainMessage s.authzid s.user s.passwd)).map charOf ≠ [] := by
    rw [Ne, List.map_eq_nil_iff]
    exact Base64.encode_ne_nil (plainMessage_ne_nil _ _ _)
  rw [split_plainLine hcode (not_mem_code (c := 32) (by decide) _)] at hsplit
  simp only [List.cons.injEq, and_true] at hsplit
  obtain ⟨-, -, rfl⟩ := hsplit
  rw [decodeBase64_code, Option.some.injEq] at hdecode
  have hnul : charOf 0 ∈ text := by
    rw [← hdecode, plainMessage, cs.decode_ascii _ 0 _ (by decide)]
    exact List.mem_append_right _ List.mem_cons_self
  obtain ⟨field, hfield, hmem⟩ := exists_mem_split hnul (by decide)
  simp only [hfields, List.mem_cons, List.not_mem_nil, or_false] at hfield
  rcases hfield with rfl | rfl
  · exact s.user_noNUL (cs.mem_of_ascii _ 0 (by decide) hmem)
  · exact s.passwd_noNUL (cs.mem_of_ascii _ 0 (by decide) hmem)

theorem indexOf_isSome {s word : JString} {offset i : ℕ} (hi : i < s.length) (hoffset : offset ≤ i)
    (hword : word <+: s.drop i) : (indexOf s word offset).isSome := by
  rw [indexOf, List.find?_isSome]
  refine ⟨i, List.mem_range.2 hi, ?_⟩
  rw [Bool.and_eq_true, decide_eq_true_iff]
  exact ⟨hoffset, List.isPrefixOf_iff_prefix.2 hword⟩

theorem indexOf_le {s word : JString} {i found : ℕ} (hfound : indexOf s word 0 = some found)
    (hword : word <+: s.drop i) : found ≤ i := by
  obtain ⟨-, -, hmin⟩ := List.find?_range_eq_some.1 hfound
  by_contra hlt
  have hnot := hmin i (Nat.lt_of_not_le hlt)
  rw [Bool.not_eq_true', Bool.and_eq_false_iff] at hnot
  rcases hnot with hnot | hnot
  · exact absurd (Nat.zero_le i) (of_decide_eq_false hnot)
  · rw [List.isPrefixOf_iff_prefix.2 hword] at hnot
    cases hnot

theorem isAuthPlain_append {s more : JString} (hend : '\n' ∈ more) :
    isAuthPlain (s ++ ("AUTH PLAIN".toList ++ more)) := by
  have hword : "AUTH PLAIN".toList <+: (s ++ ("AUTH PLAIN".toList ++ more)).drop s.length := by
    rw [List.drop_left]
    exact List.prefix_append _ _
  have hlen : s.length < (s ++ ("AUTH PLAIN".toList ++ more)).length := by
    have hpos : 0 < "AUTH PLAIN".toList.length := by decide
    simp only [List.length_append]
    omega
  obtain ⟨found, hfound⟩ := Option.isSome_iff_exists.1 (indexOf_isSome hlen (Nat.zero_le _) hword)
  have hle := indexOf_le hfound hword
  rw [isAuthPlain, hfound]
  simp only [getLineIndex]
  split_ifs with hreturn
  · exact hreturn
  · obtain ⟨start, rest, rfl⟩ := List.append_of_mem hend
    have hlist : s ++ ("AUTH PLAIN".toList ++ (start ++ '\n' :: rest)) =
        (s ++ ("AUTH PLAIN".toList ++ start)) ++ '\n' :: rest := by
      simp only [List.append_assoc]
    have hat : (s ++ ("AUTH PLAIN".toList ++ (start ++ '\n' :: rest))).drop
        (s ++ ("AUTH PLAIN".toList ++ start)).length = '\n' :: rest := by
      rw [hlist, List.drop_left]
    refine indexOf_isSome (i := (s ++ ("AUTH PLAIN".toList ++ start)).length) ?_ ?_ ?_
    · simp only [List.length_append, List.length_cons]
      omega
    · rw [List.length_append]
      omega
    · rw [hat]
      exact ⟨rest, rfl⟩

theorem isAuthPlain_stream (cs : Charset) (s : AuthPlainStream) :
    isAuthPlain (cs.decode (encodeLines s.lines)) := by
  have hword : ∀ c ∈ bytesOf "UTH PLAIN", c < 128 := ascii_of_all (by decide)
  obtain ⟨rest, hrest⟩ : ∃ rest, s.line.bytes ++ encodeLines s.after =
      (bytesOf "A" ++ bytesOf "UTH PLAIN") ++ (rest ++ LF :: encodeLines s.after) := by
    refine ⟨32 :: Base64.encode (plainMessage s.authzid s.user s.passwd) ++
      (if s.crlf then [CR] else []), ?_⟩
    have hbytes : s.line.bytes = plainText s.authzid s.user s.passwd ++
        if s.crlf then [CR, LF] else [LF] := rfl
    have hwhole : bytesOf "A" ++ bytesOf "UTH PLAIN" = bytesOf "AUTH PLAIN" := by decide
    rw [hbytes, hwhole, plainText]
    cases s.crlf <;> simp
  have hdata : encodeLines s.lines =
      encodeLines s.before ++ 65 ::
        (bytesOf "UTH PLAIN" ++ (rest ++ LF :: encodeLines s.after)) := by
    rw [AuthPlainStream.lines, encodeLines, List.flatMap_append, List.flatMap_cons]
    have hsame := congrArg (encodeLines s.before ++ ·) hrest
    simp only [List.append_assoc] at hsame
    exact hsame
  rw [hdata, cs.decode_ascii _ 65 _ (by decide), cs.decode_word hword]
  refine isAuthPlain_append ?_
  rw [cs.decode_ascii rest LF _ (by decide)]
  exact List.mem_append_right _ List.mem_cons_self

/-- The parser returns the arguments of the last lines of user and password. -/
def POP3Stream.Extracted (s : POP3Stream) (css : Charsets) (res : Option (List UInt8)) : Prop :=
  let parserData := parsePOP3 css ⟨encodeLines s.lines, res⟩
  parserData.user = css.platform.decode s.user ∧ parserData.passwd = css.platform.decode s.passwd

def AuthPlainStream.Extracted (s : AuthPlainStream) (css : Charsets)
    (res : Option (List UInt8)) : Prop :=
  Returns css ⟨encodeLines s.lines, res⟩ (css.platform.decode s.user) (css.platform.decode s.passwd)

def AuthLoginStream.Extracted (s : AuthLoginStream) (css : Charsets)
    (res : Option (List UInt8)) : Prop :=
  Returns css ⟨encodeLines s.lines, res⟩ (css.platform.decode s.user) (css.platform.decode s.passwd)

theorem pop3_extracted_iff (s : POP3Stream) (css : Charsets) (res : Option (List UInt8)) :
    s.Extracted css res ↔
      SecondField "USER".toList (othersRead css.platform (bytesOf "USER") s.lines)
          (css.platform.decode s.user) ∧
        SecondField "PASS".toList (othersRead css.platform (bytesOf "PASS") s.lines)
          (css.platform.decode s.passwd) := by
  rw [POP3Stream.Extracted, parsePOP3]
  simp only [pop3Loop_lines (length_le_encodeLines s.lines), pop3_foldl, lastField_eq_iff]
  have huser : ∀ c ∈ bytesOf "USER", c < 128 := ascii_of_all (by decide)
  have hpass : ∀ c ∈ bytesOf "PASS", c < 128 := ascii_of_all (by decide)
  exact and_congr (secondField_others huser (by decide) _ s.lines _)
    (secondField_others hpass (by decide) _ s.lines _)

theorem authPlain_extracted_iff (s : AuthPlainStream) (css : Charsets) (res : Option (List UInt8)) :
    s.Extracted css res ↔
      PlainFrom css.platform (s.before.map (·.read css.platform)) (css.platform.decode s.user)
        (css.platform.decode s.passwd) := by
  obtain ⟨hown, hnot⟩ := authPlainLine_own css.platform s
  have hlines : (s.lines.map (·.read css.platform)).find? isPlainLine =
      ((s.before.map (·.read css.platform)).find? isPlainLine).or
      (some (s.line.read css.platform)) := by
    rw [AuthPlainStream.lines, List.map_append, List.find?_append, List.map_cons,
      List.find?_cons_of_pos hown]
  rw [AuthPlainStream.Extracted, returns_plain (isAuthPlain_stream css.content s), plainFrom_iff,
    plainFrom_iff, hlines]
  constructor
  · rintro (⟨line, hfind, hline⟩ | ⟨hnone, -⟩)
    · cases hbefore : (s.before.map (·.read css.platform)).find? isPlainLine with
      | none =>
        rw [hbefore, Option.none_or, Option.some.injEq] at hfind
        rw [← hfind] at hline
        exact absurd hline hnot
      | some first =>
        rw [hbefore, Option.some_or] at hfind
        exact ⟨line, hfind, hline⟩
    · exact absurd hown (hnone s.line (List.mem_append_right _ List.mem_cons_self))
  · rintro ⟨line, hfind, hline⟩
    rw [hfind]
    exact .inl ⟨line, rfl, hline⟩

theorem authLogin_extracted_iff (s : AuthLoginStream) (css : Charsets) (res : Option (List UInt8)) :
    s.Extracted css res ↔
      (¬ isAuthPlain (css.content.decode (encodeLines s.lines)) ∧
          LastDecodes css.platform (linesFor .user .command (s.lines.map (·.read css.platform)))
            (css.platform.decode s.user) ∧
          LastDecodes css.platform (linesFor .passwd .command (s.lines.map (·.read css.platform)))
            (css.platform.decode s.passwd)) ∨
        (isAuthPlain (css.content.decode (encodeLines s.lines)) ∧
          (PlainFrom css.platform (s.lines.map (·.read css.platform)) (css.platform.decode s.user)
              (css.platform.decode s.passwd) ∨
            ((∀ line ∈ s.lines, ¬ isPlainLine (line.read css.platform)) ∧
              css.platform.decode s.user = [] ∧ css.platform.decode s.passwd = []))) := by
  rw [AuthLoginStream.Extracted]
  by_cases hplain : isAuthPlain (css.content.decode (encodeLines s.lines))
  · rw [returns_plain hplain]
    exact ⟨fun h => .inr ⟨hplain, h⟩, fun h => h.elim (fun h => absurd hplain h.1) And.right⟩
  · rw [returns_login hplain]
    exact ⟨fun h => .inl ⟨hplain, h⟩, fun h => h.elim And.right fun h => absurd h.1 hplain⟩

def expectedAfter (lines : List JString) : Expected :=
  lines.foldl (fun e line => e.next line) .command

section

variable {cs : Charset} {want e : Expected} {lines : List JString}

theorem linesFor_append (want e : Expected) (first second : List JString) :
    linesFor want e (first ++ second) =
      linesFor want e first ++
        linesFor want (first.foldl (fun e line => e.next line) e) second := by
  induction first generalizing e with
  | nil => rfl
  | cons line first ih =>
    rw [List.cons_append, linesFor, ih, linesFor, List.append_assoc]
    rfl

theorem linesFor_of_forall_not (hwant : want = .user ∨ want = .passwd)
    (he : e = .command ∨ e = .mailFrom)
    (hlines : ∀ line ∈ lines, ¬ startsWith line "AUTH LOGIN".toList) :
      linesFor want e lines = [] := by
  induction lines generalizing e with
  | nil => rfl
  | cons line lines ih =>
    obtain ⟨hline, hlines⟩ := List.forall_mem_cons.1 hlines
    have hnext : e.next line = .command ∨ e.next line = .mailFrom := by
      rcases he with rfl | rfl
      · rw [Expected.next, if_neg hline]
        split_ifs
        · exact .inr rfl
        · exact .inl rfl
      · exact .inl rfl
    have hne : e ≠ want := by
      rcases he with rfl | rfl <;> rcases hwant with rfl | rfl <;> decide
    rw [linesFor, if_neg hne, List.nil_append]
    exact ih hnext hlines

theorem linesFor_login {before after : List JString} (user passwd : JString)
    (hwant : want = .user ∨ want = .passwd) (hbefore : expectedAfter before = .command)
    (hafter : ∀ line ∈ after, ¬ startsWith line "AUTH LOGIN".toList) :
    linesFor want .command (before ++ "AUTH LOGIN".toList :: user :: passwd :: after) =
      linesFor want .command before ++ [if want = .user then user else passwd] := by
  rw [expectedAfter] at hbefore
  rw [linesFor_append, hbefore]
  have hnext : Expected.next "AUTH LOGIN".toList .command = .user := rfl
  rw [linesFor, hnext, linesFor, linesFor]
  have hrest : linesFor want .command after = [] := linesFor_of_forall_not hwant (.inl rfl) hafter
  simp only [Expected.next, hrest]
  rcases hwant with rfl | rfl <;> rfl

theorem read_loginLine (cs : Charset) (crlf : Bool) :
    (loginLine crlf).read cs = "AUTH LOGIN".toList :=
  have hword : ∀ c ∈ bytesOf "AUTH LOGIN", c < 128 := ascii_of_all (by decide)
  read_asciiLine hword (by rintro c ⟨⟩; decide) (by rintro c ⟨⟩; decide)

theorem lastDecodes_concat_code (lines : List JString) (bytes : List UInt8) (crlf : Bool) :
    LastDecodes cs (lines ++ [(codeLine bytes crlf).read cs]) (cs.decode bytes) := by
  rw [LastDecodes, List.getLast?_concat, read_codeLine]
  exact decodeBase64_code cs bytes

end

theorem authLogin_extracted (s : AuthLoginStream) (css : Charsets) (res : Option (List UInt8))
    (hplain : ¬ isAuthPlain (css.content.decode (encodeLines s.lines)))
    (hbefore : expectedAfter (s.before.map (·.read css.platform)) = .command)
    (hafter : ∀ line ∈ s.after, ¬ startsWith (line.read css.platform) "AUTH LOGIN".toList) :
    s.Extracted css res := by
  have hafter : ∀ line ∈ s.after.map (·.read css.platform), ¬ startsWith line "AUTH LOGIN".toList :=
    List.forall_mem_map.2 hafter
  have hlines : s.lines.map (·.read css.platform) =
      s.before.map (·.read css.platform) ++ "AUTH LOGIN".toList ::
        (codeLine s.user s.userCrlf).read css.platform ::
        (codeLine s.passwd s.passwdCrlf).read css.platform :: s.after.map
        (·.read css.platform) := by
    rw [AuthLoginStream.lines, List.map_append, List.map_cons, List.map_cons, List.map_cons,
      read_loginLine]
  rw [AuthLoginStream.Extracted, returns_login hplain, hlines,
    linesFor_login _ _ (.inl rfl) hbefore hafter,
    linesFor_login _ _ (.inr rfl) hbefore hafter]
  exact ⟨lastDecodes_concat_code _ _ _, lastDecodes_concat_code _ _ _⟩

/-- When the logins of streams are what the parsers return; for `AUTH LOGIN` in particular where the
scan looks for a command. -/
theorem logins_extracted_iff (css : Charsets) (res : Option (List UInt8)) :
    (∀ s : POP3Stream, s.Extracted css res ↔
      SecondField "USER".toList (othersRead css.platform (bytesOf "USER") s.lines)
          (css.platform.decode s.user) ∧
        SecondField "PASS".toList (othersRead css.platform (bytesOf "PASS") s.lines)
          (css.platform.decode s.passwd)) ∧
    (∀ s : AuthPlainStream, s.Extracted css res ↔
      PlainFrom css.platform (s.before.map (·.read css.platform)) (css.platform.decode s.user)
        (css.platform.decode s.passwd)) ∧
    (∀ s : AuthLoginStream, s.Extracted css res ↔
      (¬ isAuthPlain (css.content.decode (encodeLines s.lines)) ∧
          LastDecodes css.platform (linesFor .user .command (s.lines.map (·.read css.platform)))
            (css.platform.decode s.user) ∧
          LastDecodes css.platform (linesFor .passwd .command (s.lines.map (·.read css.platform)))
            (css.platform.decode s.passwd)) ∨
        (isAuthPlain (css.content.decode (encodeLines s.lines)) ∧
          (PlainFrom css.platform (s.lines.map (·.read css.platform)) (css.platform.decode s.user)
              (css.platform.decode s.passwd) ∨
            ((∀ line ∈ s.lines, ¬ isPlainLine (line.read css.platform)) ∧
              css.platform.decode s.user = [] ∧ css.platform.decode s.passwd = [])))) ∧
    (∀ s : AuthLoginStream, ¬ isAuthPlain (css.content.decode (encodeLines s.lines)) →
      expectedAfter (s.before.map (·.read css.platform)) = .command →
      (∀ line ∈ s.after, ¬ startsWith (line.read css.platform) "AUTH LOGIN".toList) →
        s.Extracted css res) :=
  ⟨fun s => pop3_extracted_iff s css res, fun s => authPlain_extracted_iff s css res,
    fun s => authLogin_extracted_iff s css res, fun s => authLogin_extracted s css res⟩

theorem latin1_decode_ascii (xs : List UInt8) (c : UInt8) (ys : List UInt8) (_ : c < 128) :
    (xs ++ c :: ys).map charOf = xs.map charOf ++ charOf c :: ys.map charOf :=
  List.map_append

theorem latin1_mem_of_ascii (xs : List UInt8) (c : UInt8) (_ : c < 128)
    (hc : charOf c ∈ xs.map charOf) :
    c ∈ xs :=
  (List.mem_map_of_injective charOf_injective).1 hc

def latin1 : Charset where
  decode xs := xs.map charOf
  decode_nil := rfl
  decode_ascii := latin1_decode_ascii
  mem_of_ascii := latin1_mem_of_ascii

theorem userBob_noLF : LF ∉ bytesOf "USER bob" := by decide

theorem passSecret_noLF : LF ∉ bytesOf "PASS secret" := by decide

def bobLines : List TextLine :=
  [⟨bytesOf "USER bob", true, userBob_noLF⟩, ⟨bytesOf "PASS secret", true, passSecret_noLF⟩]

theorem bobLines_user : lastArg (bytesOf "USER") bobLines = some (bytesOf "bob") := by decide

theorem bobLines_passwd : lastArg (bytesOf "PASS") bobLines = some (bytesOf "secret") := by decide

def bobPOP3 : POP3Stream :=
  ⟨bobLines, bytesOf "bob", bytesOf "secret", bobLines_user, bobLines_passwd⟩

theorem zero_notMem_bob : 0 ∉ bytesOf "bob" := by decide

theorem zero_notMem_secret : 0 ∉ bytesOf "secret" := by decide

def bobPlain : AuthPlainStream :=
  ⟨[], [], true, [], bytesOf "bob", bytesOf "secret", zero_notMem_bob, zero_notMem_secret⟩

theorem mailFrom_noLF : LF ∉ bytesOf "MAIL FROM:<bob>" := by decide

def bobLogin : AuthLoginStream :=
  ⟨[⟨bytesOf "MAIL FROM:<bob>", true, mailFrom_noLF⟩], [], true, true, true, bytesOf "bob",
    bytesOf "secret"⟩

theorem userBobTwice_noLF : LF ∉ bytesOf "USER bob x" := by decide

theorem passSecretTwice_noLF : LF ∉ bytesOf "PASS secret x" := by decide

def longLines : List TextLine :=
  bobLines ++ [⟨bytesOf "USER bob x", false, userBobTwice_noLF⟩,
    ⟨bytesOf "PASS secret x", false, passSecretTwice_noLF⟩]

theorem longLines_user : lastArg (bytesOf "USER") longLines = some (bytesOf "bob") := by decide

theorem longLines_passwd : lastArg (bytesOf "PASS") longLines = some (bytesOf "secret") := by decide

def longPOP3 : POP3Stream :=
  ⟨longLines, bytesOf "bob", bytesOf "secret", longLines_user, longLines_passwd⟩

theorem spacedPlain_noLF : LF ∉ bytesOf "AUTH PLAIN " ++ Base64.encode (bytesOf "bob secret") := by
  decide

def spacedPlain : AuthPlainStream :=
  ⟨[⟨bytesOf "AUTH PLAIN " ++ Base64.encode (bytesOf "bob secret"), true, spacedPlain_noLF⟩],
    [], true, [], bytesOf "bob", bytesOf "secret", zero_notMem_bob, zero_notMem_secret⟩

def promptedLogin : AuthLoginStream := ⟨[], [], true, true, true, bytesOf "bob", bytesOf "secret"⟩

theorem bob_extracted :
    longPOP3.Extracted ⟨latin1, latin1⟩ none ∧ spacedPlain.Extracted ⟨latin1, latin1⟩ none ∧
      promptedLogin.Extracted ⟨latin1, latin1⟩ none := by
  obtain ⟨hpop3, hplain, -, hlogin⟩ := logins_extracted_iff ⟨latin1, latin1⟩ none
  refine ⟨(hpop3 longPOP3).2 ⟨?_, ?_⟩, (hplain spacedPlain).2 (plainFrom_iff.2 ⟨_, rfl, ?_⟩),
    hlogin promptedLogin ?_ ?_ ?_⟩
  · exact (lastField_eq_iff _ _ _).1 (by decide)
  · exact (lastField_eq_iff _ _ _).1 (by decide)
  · decide
  · decide
  · rfl
  · simp [promptedLogin]

/-- The last login is lost because its command is read as a sender. -/
theorem bob_not_extracted :
    ¬ bobPOP3.Extracted ⟨latin1, latin1⟩ none ∧ ¬ bobPlain.Extracted ⟨latin1, latin1⟩ none ∧
      ¬ bobLogin.Extracted ⟨latin1, latin1⟩ none := by
  refine ⟨?_, ?_, ?_⟩
  · rintro ⟨huser, -⟩
    exact absurd huser (by decide)
  · rw [authPlain_extracted_iff]
    rintro ⟨line, -, -, -, -, hfind, -⟩
    cases hfind
  · rw [authLogin_extracted_iff]
    rintro (⟨-, huser, -⟩ | ⟨hplain, -⟩)
    · have hnone : linesFor .user .command (bobLogin.lines.map (·.read latin1)) = [] := by decide
      rw [LastDecodes, hnone] at huser
      have hempty : latin1.decode (bytesOf "bob") = [] := huser
      exact absurd hempty (by decide)
    · exact absurd hplain (by decide)

end CloudHands.Japi.Login
