import CloudHands.Ftp.DataConnection

/-!
# Announced data endpoints

The endpoint of a data connection is announced in the reply to `PASV` or in the argument of
`PORT`, as six numbers. `_ip_port_get` gets the text of the reply in both cases.
-/

namespace CloudHands.Ftp

open Lib Http

structure Endpoint where
  h1 : UInt8
  h2 : UInt8
  h3 : UInt8
  h4 : UInt8
  p1 : UInt8
  p2 : UInt8

def digitBytes (n : UInt8) : List UInt8 := (Nat.toDigits 10 n.toNat).map fun c =>
  UInt8.ofNat c.toNat

namespace Endpoint

def numbers (e : Endpoint) : List UInt8 := [e.h1, e.h2, e.h3, e.h4, e.p1, e.p2]

/-- `h1,h2,h3,h4,p1,p2`. -/
def text (e : Endpoint) : List UInt8 := [44].intercalate (e.numbers.map digitBytes)

def address (e : Endpoint) : ℕ :=
  e.h1.toNat + e.h2.toNat * 2 ^ 8 + e.h3.toNat * 2 ^ 16 + e.h4.toNat * 2 ^ 24

def port (e : Endpoint) : ℕ := e.p1.toNat * 256 + e.p2.toNat

end Endpoint

theorem digitBytes_ne_nil (n : UInt8) : digitBytes n ≠ [] := by
  rw [digitBytes, Ne, List.map_eq_nil_iff]
  exact Nat.toDigits_ne_nil

theorem toNat_digitBytes {n : UInt8} {c : Char} (hc : c ∈ Nat.toDigits 10 n.toNat) :
    (UInt8.ofNat c.toNat).toNat = c.toNat ∧ 48 ≤ c.toNat ∧ c.toNat ≤ 57 := by
  have hdigit : 48 ≤ c.toNat ∧ c.toNat ≤ 57 := by
    simpa [Char.isDigit, UInt32.le_iff_toNat_le] using isDigit_toDigits n.toNat c hc
  refine ⟨?_, hdigit⟩
  rw [UInt8.toNat_ofNat']
  omega

theorem isDigitByte_of_mem {n b : UInt8} (h : b ∈ digitBytes n) : isDigitByte b = true := by
  obtain ⟨c, hc, rfl⟩ := List.mem_map.1 h
  obtain ⟨hvalue, hdigit⟩ := toNat_digitBytes hc
  simp only [isDigitByte, Bool.and_eq_true, decide_eq_true_eq, UInt8.le_iff_toNat_le, hvalue]
  exact hdigit

theorem length_digitBytes_le (n : UInt8) : (digitBytes n).length ≤ 3 := by
  have hsmall := n.toNat_lt
  rw [digitBytes, List.length_map]
  exact Nat.toDigits_length 10 n.toNat 3 (by decide) (by omega)

theorem addrPart_digitBytes (n : UInt8) : addrPart (digitBytes n) = n.toNat := by
  have hchars : (digitBytes n).map (fun b => Char.ofNat b.toNat) = Nat.toDigits 10 n.toNat := by
    rw [digitBytes, List.map_map]
    refine (List.map_congr_left fun c hc => ?_).trans (List.map_id _)
    rw [Function.comp_apply, (toNat_digitBytes hc).1, Char.ofNat_toNat]
    rfl
  have hsmall := n.toNat_lt
  have hread : parseSigned asciiDigit 0 255 (Nat.toDigits 10 n.toNat) = some (n.toNat : ℤ) :=
    parseSigned_toDigits (fun _ _ => rfl) (by omega) (by omega)
  rw [addrPart, hchars, strtol_of_parseSigned (by decide) (by decide) hread]
  omega

namespace Endpoint

theorem text_eq (e : Endpoint) :
    e.text = digitBytes e.h1 ++ (44 :: (digitBytes e.h2 ++ (44 :: (digitBytes e.h3 ++ (44 ::
      (digitBytes e.h4 ++ (44 :: (digitBytes e.p1 ++ (44 :: digitBytes e.p2))))))))) := by
  simp [text, numbers, List.intercalate]

theorem length_text_le (e : Endpoint) : e.text.length ≤ 23 := by
  have := length_digitBytes_le e.h1
  have := length_digitBytes_le e.h2
  have := length_digitBytes_le e.h3
  have := length_digitBytes_le e.h4
  have := length_digitBytes_le e.p1
  have := length_digitBytes_le e.p2
  rw [text_eq]
  simp only [List.length_append, List.length_cons]
  omega

theorem mem_text {e : Endpoint} {b : UInt8} (h : b ∈ e.text) : isDigitByte b = true ∨ b = 44 := by
  rw [text_eq] at h
  simp only [List.mem_append, List.mem_cons] at h
  rcases h with h | h | h | h | h | h | h | h | h | h | h
  all_goals first | exact .inl (isDigitByte_of_mem h) | exact .inr h

theorem text_begins (e : Endpoint) : ∃ b bs, e.text = b :: bs ∧ isDigitByte b = true := by
  obtain ⟨b, bs, hb⟩ := List.exists_cons_of_ne_nil (digitBytes_ne_nil e.h1)
  have hmem : b ∈ digitBytes e.h1 := hb ▸ List.mem_cons_self
  exact ⟨b, _, by rw [text_eq, hb, List.cons_append], isDigitByte_of_mem hmem⟩

theorem text_ends (e : Endpoint) : ∃ bs b, e.text = bs ++ [b] ∧ isDigitByte b = true := by
  obtain ⟨bs, b, hb⟩ :=
    List.eq_nil_or_concat' (digitBytes e.p2) |>.resolve_left (digitBytes_ne_nil _)
  have hmem : b ∈ digitBytes e.p2 := by simp [hb]
  have htext := e.text_eq
  rw [hb] at htext
  simp only [← List.cons_append, ← List.append_assoc] at htext
  exact ⟨_, b, htext, isDigitByte_of_mem hmem⟩

theorem address_lt (e : Endpoint) : e.address < 2 ^ 32 := by
  have := e.h1.toNat_lt
  have := e.h2.toNat_lt
  have := e.h3.toNat_lt
  have := e.h4.toNat_lt
  rw [address]
  omega

theorem port_lt (e : Endpoint) : e.port < 2 ^ 16 := by
  have := e.p1.toNat_lt
  have := e.p2.toNat_lt
  rw [port]
  omega

theorem ipPortGet_text (e : Endpoint) : ipPortGet e.text false = (e.address, e.port) := by
  have hparts : ((e.text.take 63).splitOn 44).filter (· ≠ []) = e.numbers.map digitBytes := by
    rw [List.take_of_length_le (e.length_text_le.trans (by decide)), text, List.splitOn_intercalate]
    · refine List.filter_eq_self.2 fun part hpart => ?_
      obtain ⟨n, -, rfl⟩ := List.mem_map.1 hpart
      simpa using digitBytes_ne_nil n
    · intro part hpart hcomma
      obtain ⟨n, -, rfl⟩ := List.mem_map.1 hpart
      exact absurd (isDigitByte_of_mem hcomma) (by decide)
    · exact List.cons_ne_nil _ _
  have hnumbers : (e.numbers.map digitBytes).map addrPart = e.numbers.map UInt8.toNat := by
    rw [List.map_map]
    exact List.map_congr_left fun n _ => addrPart_digitBytes n
  have haddress := e.address_lt
  have hport := e.port_lt
  simp only [ipPortGet, Bool.false_eq_true, if_false, hparts, hnumbers]
  rw [address] at haddress
  rw [port] at hport
  simp only [numbers, List.map_cons, List.map_nil, List.getD_cons_zero, List.getD_cons_succ,
    Prod.mk.injEq]
  exact ⟨Nat.mod_eq_of_lt haddress, Nat.mod_eq_of_lt hport⟩

end Endpoint

theorem ipPortGet_surrounded {before after : List UInt8}
    (hbefore : ∀ b ∈ before, isDigitByte b = false)
    (hafter : ∀ b ∈ after, isDigitByte b = false) (e : Endpoint) :
    ipPortGet (before ++ (e.text ++ after)) true = (e.address, e.port) := by
  obtain ⟨b, bs, hbegin, hb⟩ := e.text_begins
  obtain ⟨bs', b', hend, hb'⟩ := e.text_ends
  have hdrop : (before ++ (e.text ++ after)).dropWhile (!isDigitByte ·) = e.text ++ after := by
    rw [List.dropWhile_append_of_pos (by simpa using hbefore), hbegin, List.cons_append,
      List.dropWhile_cons_of_neg (by simp [hb])]
  have htrim : (e.text ++ after).rdropWhile (!isDigitByte ·) = e.text := by
    rw [List.rdropWhile, List.reverse_append, List.dropWhile_append_of_pos (by simpa using hafter),
      hend,
      List.reverse_append, List.reverse_singleton, List.singleton_append,
      List.dropWhile_cons_of_neg (by simp [hb']), List.reverse_cons, List.reverse_reverse]
  have htext := e.ipPortGet_text
  rw [ipPortGet] at htext ⊢
  simp only [if_true, hdrop, htrim]
  simpa only [Bool.false_eq_true, if_false] using htext

theorem ipPortGet_no_digits {str : List UInt8} (h : ∀ b ∈ str, isDigitByte b = false) :
    ipPortGet str true = (0, 0) := by
  have hdrop : str.dropWhile (!isDigitByte ·) = [] := by simpa using h
  rw [ipPortGet]
  simp only [if_true, hdrop]
  rfl

/-- The way an endpoint is announced: the texts around it in the reply to `PASV`, or the text of
the reply to `PORT`, which has it as its argument. -/
inductive Announcement
  | pasv (before after : List UInt8)
  | port (phrase : List UInt8)

def Announcement.command : Announcement → String
  | .pasv _ _ => "PASV"
  | .port _ => "PORT"

def Announcement.isPasv : Announcement → Bool
  | .pasv _ _ => true
  | .port _ => false

def Announcement.code (a : Announcement) : List UInt8 := bytesOf (if a.isPasv then "227" else "200")

def Announcement.phrase (e : Endpoint) : Announcement → List UInt8
  | .pasv before after => before ++ (e.text ++ after)
  | .port phrase => phrase

def Announcement.reply (a : Announcement) (e : Endpoint) : List UInt8 := a.code ++ 32 :: a.phrase e

/-- A control session whose last command announces one of its two addresses. -/
structure Exchange (w : Worker) where
  c : ℕ
  s : ControlSession
  session : w.controls.cell c = some s
  cmd : FtpCmd
  current : s.ftpSession.curCmd = some cmd.id
  found : s.ftpSession.getCmd cmd.id = some cmd
  endpoint : Endpoint
  ours : endpoint.address = s.srcIp ∨ endpoint.address = s.dstIp
  announcement : Announcement
  word : cmd.cmd.map toLower = (bytesOf announcement.command).map toLower
  announced :
    match announcement with
    | .pasv before after => ∀ b ∈ before ++ after, isDigitByte b = false
    | .port _ => cmd.args = endpoint.text

def announcedConnection (c : ℕ) (s : ControlSession) (cmd : FtpCmd) (e : Endpoint) :
    DataConnection :=
  ⟨none, c, cmd.id, [], if e.address = s.srcIp then s.dstIp else s.srcIp, e.address, e.port⟩

def Adds (w w' : Worker) (dcon : DataConnection) : Prop :=
  w'.dconList = w.dcons.next :: w.dconList ∧ w'.dcons.cell w.dcons.next = some dcon

namespace Exchange

variable {w : Worker} (x : Exchange w)

/-- The reply registers a data connection with the endpoint. -/
def Registers : Prop :=
  ∃ w', responseLine w x.c (x.announcement.reply x.endpoint) = some w' ∧
    Adds w w' (announcedConnection x.c x.s x.cmd x.endpoint)

end Exchange

def Names (text : List UInt8) (e : Endpoint) : Prop :=
  let parts := (((cString text).take 63).splitOn 44).filter (· ≠ [])
  let number (i : ℕ) := (parts.map addrPart).getD i 0
  (number 0 + number 1 * 2 ^ 8 + number 2 * 2 ^ 16 + number 3 * 2 ^ 24) % 2 ^ 32 = e.address ∧
    (number 4 * 2 ^ 8 + number 5) % 2 ^ 16 = e.port

/-- The command is in capitals and has no data connection yet, address and port are not zero,
and the reply has the endpoint: that of `PASV` before any zero byte, that of `PORT` by itself. -/
structure Exchange.Understood {w : Worker} (x : Exchange w) : Prop where
  capitals : x.cmd.cmd = bytesOf x.announcement.command
  first : x.cmd.ftpDcon = none
  task : w.taskId < maxThreadNum
  address : x.endpoint.address ≠ 0
  port : x.endpoint.port ≠ 0
  text :
    match x.announcement with
    | .pasv before _ => 0 ∉ before
    | .port phrase => Names (phrase.dropWhile isSpaceByte) x.endpoint

theorem isSpaceByte_of_digit {b : UInt8} (hb : isDigitByte b = true) : isSpaceByte b = false := by
  simp only [isDigitByte, Bool.and_eq_true, decide_eq_true_eq, UInt8.le_iff_toNat_le] at hb
  simp only [isSpaceByte, Bool.or_eq_false_iff, Bool.and_eq_false_iff, decide_eq_false_iff_not,
    UInt8.le_iff_toNat_le, ← UInt8.toNat_inj]
  have : (48 : UInt8).toNat = 48 := rfl
  have : (32 : UInt8).toNat = 32 := rfl
  have : (13 : UInt8).toNat = 13 := rfl
  omega

theorem lineStrParse_reply {code : List UInt8} (rest : List UInt8)
    (hcode : ∀ b ∈ code, isDigitByte b = true) (hne : code ≠ []) :
    lineStrParse (code ++ 32 :: rest) = (code, rest.dropWhile isSpaceByte) := by
  have hspace : ∀ b ∈ code, isSpaceByte b = false := fun b hb => isSpaceByte_of_digit (hcode b hb)
  have hstart : (code ++ 32 :: rest).dropWhile isSpaceByte = code ++ 32 :: rest := by
    obtain ⟨b, bs, rfl⟩ := List.exists_cons_of_ne_nil hne
    rw [List.cons_append, List.dropWhile_cons_of_neg (by simp [hspace b List.mem_cons_self])]
  have htake : (code ++ 32 :: rest).takeWhile (!isSpaceByte ·) = code := by
    rw [List.takeWhile_append_of_pos (by simpa using hspace),
      List.takeWhile_cons_of_neg (by decide),
      List.append_nil]
  have hdrop : (code ++ 32 :: rest).dropWhile (!isSpaceByte ·) = 32 :: rest := by
    rw [List.dropWhile_append_of_pos (by simpa using hspace),
      List.dropWhile_cons_of_neg (by decide)]
  rw [lineStrParse]
  simp only [hstart, htake, hdrop]
  rw [List.dropWhile_cons_of_pos (by decide)]

theorem getCmd_mapCmd (s : FtpSession) (id : ℕ) (f : FtpCmd → FtpCmd)
    (hf : ∀ cmd, (f cmd).id = cmd.id) :
    (s.mapCmd id f).getCmd id = (s.getCmd id).map f := by
  rw [FtpSession.getCmd, FtpSession.mapCmd, List.find?_map]
  have hsame :
      (fun cmd : FtpCmd => decide (cmd.id = id)) ∘ (fun cmd => if cmd.id = id then f cmd else cmd) =
      fun cmd => decide (cmd.id = id) := by
    funext cmd
    by_cases hid : cmd.id = id
    · simp [hid, hf]
    · simp [hid]
  rw [hsame, FtpSession.getCmd]
  cases hfind : s.cmdList.find? fun cmd => decide (cmd.id = id) with
  | none => rfl
  | some cmd =>
    have hid : cmd.id = id := by simpa using List.find?_some hfind
    simp [hid]

theorem responseLine_eq {w : Worker} {c : ℕ} {s : ControlSession} {cmd : FtpCmd}
    {line code phrase : List UInt8}
    (hs : w.controls.cell c = some s) (hcurrent : s.ftpSession.curCmd = some cmd.id)
    (hfound : s.ftpSession.getCmd cmd.id = some cmd) (hline : lineStrParse line = (code, phrase))
    (hne : code ≠ []) (hcode : strToUint16 code ≠ 0) :
    ∃ w₁ s₁ cmd₁, (w₁.taskId = w.taskId ∧ w₁.dcons = w.dcons ∧ w₁.dconList = w.dconList) ∧
      (w₁.controls.cell c = some s₁ ∧ s₁.srcIp = s.srcIp ∧ s₁.dstIp = s.dstIp) ∧
      (cmd₁.id = cmd.id ∧ cmd₁.cmd = cmd.cmd ∧ cmd₁.ftpDcon = cmd.ftpDcon) ∧
      responseLine w c line = processFtpAns w₁ c s₁ cmd₁ ⟨strToUint16 code, cString phrase⟩ := by
  let addAns : FtpCmd → FtpCmd := fun cmd =>
    { cmd with ansList := cmd.ansList ++ [⟨strToUint16 code, cString phrase⟩] }
  let s₁ : ControlSession := { s with ftpSession := s.ftpSession.mapCmd cmd.id addAns }
  obtain ⟨controls, hwrite, hcell, -, -⟩ := Arena.write_eq hs s₁
  have hans : s.ftpSession.ansAdd code phrase =
      some (s₁.ftpSession, cmd.id, ⟨strToUint16 code, cString phrase⟩) := by
    rw [FtpSession.ansAdd, hcurrent]
    exact if_neg (not_or.2 ⟨hne, hcode⟩)
  have hget : s₁.ftpSession.getCmd cmd.id = some (addAns cmd) := by
    have hmap := getCmd_mapCmd s.ftpSession cmd.id addAns fun _ => rfl
    rwa [hfound] at hmap
  refine ⟨{ w with controls := controls }, s₁, addAns cmd, ⟨rfl, rfl, rfl⟩, ⟨?_, rfl, rfl⟩,
    ⟨rfl, rfl, rfl⟩, ?_⟩
  · rw [hcell, Function.update_self]
  · rw [responseLine, hs]
    simp only [Option.bind_eq_bind, Option.bind_some, hline, hans]
    rw [Worker.setControl, hwrite]
    simp only [Option.bind_eq_bind, Option.bind_some, hget]
    rfl

theorem processFtpDataConnection_adds_iff {w : Worker} {c : ℕ} {s : ControlSession} {cmd : FtpCmd}
    {ans : FtpAns} {isPasv : Bool} {e : Endpoint} (hs : w.controls.cell c = some s)
    (hcode : ans.code = if isPasv then 227 else 200)
    (hours : e.address = s.srcIp ∨ e.address = s.dstIp) :
    (∃ w', processFtpDataConnection w c s cmd ans isPasv = some w' ∧
        Adds w w' (announcedConnection c s cmd e)) ↔
      cmd.ftpDcon = none ∧ w.taskId < maxThreadNum ∧ e.address ≠ 0 ∧ e.port ≠ 0 ∧
        ipPortGet ans.phrase isPasv = (e.address, e.port) := by
  -- a worker that is left as it is has no data connection more
  have hkept : ¬ ∃ w', some w = some w' ∧ Adds w w' (announcedConnection c s cmd e) := by
    rintro ⟨w', heq, hlist, -⟩
    cases heq
    exact absurd (congrArg List.length hlist) (by simp)
  rw [processFtpDataConnection]
  by_cases hphrase : ans.phrase = []
  · rw [if_pos hphrase]
    refine iff_of_false hkept ?_
    rintro ⟨-, -, haddress, -, hget⟩
    have hnothing : ipPortGet [] isPasv = (0, 0) := by cases isPasv <;> decide
    rw [hphrase, hnothing] at hget
    exact haddress (congrArg Prod.fst hget).symm
  rw [if_neg hphrase]
  by_cases hdcon : cmd.ftpDcon.isSome
  · rw [if_pos hdcon]
    refine iff_of_false hkept fun h => ?_
    rw [h.1] at hdcon
    cases hdcon
  have hnone : cmd.ftpDcon = none := by simpa using hdcon
  rw [if_neg hdcon, if_neg (by cases isPasv <;> simp_all), if_neg (by cases isPasv <;> simp_all)]
  rcases hget : ipPortGet ans.phrase isPasv with ⟨dstIp, dstPort⟩
  dsimp only
  by_cases hours' : dstIp = 0 ∨ (dstIp ≠ s.srcIp ∧ dstIp ≠ s.dstIp) ∨ dstPort = 0
  · rw [if_pos hours']
    refine iff_of_false hkept ?_
    rintro ⟨-, -, haddress, hport, heq⟩
    cases heq
    rcases hours' with h | ⟨h, h'⟩ | h
    · exact haddress h
    · exact hours.elim h h'
    · exact hport h
  rw [if_neg hours']
  rw [dataConnectionCreate]
  by_cases htask : maxThreadNum ≤ w.taskId
  · rw [if_pos htask]
    exact iff_of_false (by simp) fun h => absurd h.2.1 (not_lt.2 htask)
  rw [if_neg htask]
  obtain ⟨controls, hwrite, -, -, -⟩ := Arena.write_eq hs
    { s with ftpSession := s.ftpSession.setFtpDcon cmd.id (some w.dcons.next) }
  simp only [Option.bind_eq_bind, Option.bind_some, Worker.setFtpDcon, Worker.setControl, hs,
    hwrite]
  constructor
  · rintro ⟨w', heq, -, hcell⟩
    cases heq
    rw [Arena.alloc_cell, Function.update_self, announcedConnection] at hcell
    simp only [Option.some.injEq, DataConnection.mk.injEq] at hcell
    obtain ⟨-, -, -, -, -, rfl, rfl⟩ := hcell
    exact ⟨hnone, not_le.1 htask, fun h => hours' (.inl h), fun h => hours' (.inr (.inr h)), rfl⟩
  · rintro ⟨-, -, -, -, heq⟩
    cases heq
    exact ⟨_, rfl, rfl, by rw [Arena.alloc_cell, Function.update_self, announcedConnection]⟩

theorem isCmd_of_letters {cmd : FtpCmd} {name : String}
    (hword : cmd.cmd.map toLower = (bytesOf name).map toLower) {name' : String}
    (hlength : (bytesOf name).length = (bytesOf name').length) :
    isCmd cmd name' = true ↔ cmd.cmd = bytesOf name' := by
  have hcmd : (bytesOf name').length = cmd.cmd.length := by
    simpa [hlength] using (congrArg List.length hword).symm
  rw [isCmd, List.isPrefixOf_iff_prefix]
  constructor
  · exact fun h => (h.eq_of_length hcmd).symm
  · exact fun h => h ▸ List.prefix_refl _

theorem isCmd_eq_false {cmd : FtpCmd} {name : String}
    (hword : cmd.cmd.map toLower = (bytesOf name).map toLower) {name' : String}
    (hlength : (bytesOf name).length = (bytesOf name').length)
    (hne : (bytesOf name').map toLower ≠ (bytesOf name).map toLower) : isCmd cmd name' = false := by
  rw [Bool.eq_false_iff, Ne, isCmd_of_letters hword hlength]
  intro heq
  rw [heq] at hword
  exact hne hword

/-- The phrase of a reply to `PASV`: a zero byte before the numbers cuts them off. -/
theorem phrase_surrounded {before after : List UInt8} (e : Endpoint) :
    cString ((before ++ (e.text ++ after)).dropWhile isSpaceByte) =
      if 0 ∈ before then cString (before.dropWhile isSpaceByte)
      else before.dropWhile isSpaceByte ++ (e.text ++ cString after) := by
  obtain ⟨b, bs, hbegin, hb⟩ := e.text_begins
  have hdrop : (before ++ (e.text ++ after)).dropWhile isSpaceByte =
      before.dropWhile isSpaceByte ++ (e.text ++ after) := by
    rw [List.dropWhile_append]
    split
    next hempty =>
      rw [List.isEmpty_iff.1 hempty, List.nil_append, hbegin, List.cons_append,
        List.dropWhile_cons_of_neg (by simp [isSpaceByte_of_digit hb])]
    next => rfl
  have hzero : 0 ∈ before ↔ 0 ∈ before.dropWhile isSpaceByte := by
    refine ⟨fun h => ?_, fun h => (List.dropWhile_sublist _).subset h⟩
    rw [← List.takeWhile_append_dropWhile (p := isSpaceByte) (l := before)] at h
    rcases List.mem_append.1 h with h | h
    · exact absurd (List.mem_takeWhile_imp h) (by decide)
    · exact h
  rw [hdrop, cString]
  by_cases h : 0 ∈ before
  · rw [if_pos h, List.takeWhile_append, if_neg, cString]
    intro hlength
    have hall := (List.takeWhile_prefix _).eq_of_length hlength
    rw [← hall] at hzero
    exact absurd (List.mem_takeWhile_imp (hzero.1 h)) (by decide)
  · have htext : 0 ∉ e.text := fun hmem => absurd (Endpoint.mem_text hmem) (by decide)
    rw [if_neg h, List.takeWhile_append_of_pos, List.takeWhile_append_of_pos, cString]
    · intro b hb
      simpa using fun hz : b = 0 => htext (hz ▸ hb)
    · intro b hb
      simpa using fun hz : b = 0 => h (hzero.2 (hz ▸ hb))

theorem ipPortGet_phrase {before after : List UInt8} (e : Endpoint) (haddress : e.address ≠ 0)
    (haround : ∀ b ∈ before ++ after, isDigitByte b = false) :
    ipPortGet (cString ((before ++ (e.text ++ after)).dropWhile isSpaceByte)) true =
      (e.address, e.port) ↔
      0 ∉ before := by
  obtain ⟨hbefore, hafter⟩ := List.forall_mem_append.1 haround
  have hbefore' : ∀ b ∈ before.dropWhile isSpaceByte, isDigitByte b = false := fun b hb =>
    hbefore b ((List.dropWhile_sublist _).subset hb)
  rw [phrase_surrounded]
  by_cases h : 0 ∈ before
  · have hcut : ∀ b ∈ cString (before.dropWhile isSpaceByte), isDigitByte b = false := fun b hb =>
      hbefore' b ((List.takeWhile_sublist _).subset hb)
    rw [if_pos h, ipPortGet_no_digits hcut]
    refine iff_of_false (fun heq => haddress ?_) (not_not_intro h)
    exact (congrArg Prod.fst heq).symm
  · rw [if_neg h]
    exact iff_of_true (ipPortGet_surrounded hbefore' (fun b hb => hafter b
      ((List.takeWhile_sublist _).subset hb)) e) h

theorem processFtpAns_announced (w : Worker) (c : ℕ) (s : ControlSession) {cmd : FtpCmd}
    {ans : FtpAns}
    {a : Announcement} (hword : cmd.cmd.map toLower = (bytesOf a.command).map toLower)
    (hcode : ans.code = if a.isPasv then 227 else 200) :
    processFtpAns w c s cmd ans =
      if cmd.cmd = bytesOf a.command then processFtpDataConnection w c s cmd ans a.isPasv
      else some w := by
  cases a with
  | pasv before after =>
    have hletters : cmd.cmd.map toLower = (bytesOf "PASV").map toLower := hword
    have hpasv : isCmd cmd "PASV" = true ↔ cmd.cmd = bytesOf "PASV" :=
      isCmd_of_letters hletters rfl
    have hport : isCmd cmd "PORT" = false :=
      isCmd_eq_false hletters (by decide) (by decide)
    rw [processFtpAns, hport]
    simp only [hpasv, hcode]
    rfl
  | port phrase =>
    have hletters : cmd.cmd.map toLower = (bytesOf "PORT").map toLower := hword
    have hport : isCmd cmd "PORT" = true ↔ cmd.cmd = bytesOf "PORT" :=
      isCmd_of_letters hletters rfl
    have hpasv : isCmd cmd "PASV" = false :=
      isCmd_eq_false hletters (by decide) (by decide)
    rw [processFtpAns, hpasv]
    simp only [hport, hcode]
    rfl

theorem Exchange.registers_iff {w : Worker} (x : Exchange w) :
    x.Registers ↔ x.cmd.cmd = bytesOf x.announcement.command ∧ x.cmd.ftpDcon = none ∧
      w.taskId < maxThreadNum ∧ x.endpoint.address ≠ 0 ∧ x.endpoint.port ≠ 0 ∧
      ipPortGet (cString ((x.announcement.phrase x.endpoint).dropWhile isSpaceByte))
        x.announcement.isPasv = (x.endpoint.address, x.endpoint.port) := by
  have hdigits : ∀ b ∈ x.announcement.code, isDigitByte b = true := by
    rw [Announcement.code]
    split <;> decide +kernel
  have hne : x.announcement.code ≠ [] := by
    rw [Announcement.code]
    split <;> decide +kernel
  have hvalue : strToUint16 x.announcement.code = if x.announcement.isPasv then 227 else 200 := by
    rw [Announcement.code]
    split <;> decide
  have hnonzero : strToUint16 x.announcement.code ≠ 0 := by
    rw [hvalue]
    split <;> decide
  obtain ⟨w₁, s₁, cmd₁, ⟨htask, hdcons, hlist⟩, ⟨hs₁, hsrc, hdst⟩, ⟨hid, hcmd, hdcon⟩, hresponse⟩ :=
    responseLine_eq x.session x.current x.found (lineStrParse_reply _ hdigits hne) hne hnonzero
  have hword : cmd₁.cmd.map toLower = (bytesOf x.announcement.command).map toLower := hcmd ▸ x.word
  have hours : x.endpoint.address = s₁.srcIp ∨ x.endpoint.address = s₁.dstIp := by
    rw [hsrc, hdst]
    exact x.ours
  have hconnection : announcedConnection x.c x.s x.cmd x.endpoint =
      announcedConnection x.c s₁ cmd₁ x.endpoint := by
    rw [announcedConnection, announcedConnection, hid, hsrc, hdst]
  rw [Registers, Announcement.reply, hresponse, processFtpAns_announced w₁ x.c s₁ hword hvalue,
    hconnection, ← hcmd, ← hdcon, ← htask]
  simp only [Adds, ← hdcons, ← hlist]
  by_cases hcapitals : cmd₁.cmd = bytesOf x.announcement.command
  · rw [if_pos hcapitals, and_iff_right hcapitals]
    exact processFtpDataConnection_adds_iff hs₁ hvalue hours
  · rw [if_neg hcapitals]
    refine iff_of_false ?_ fun h => hcapitals h.1
    rintro ⟨w', heq, hadded, -⟩
    cases heq
    exact absurd (congrArg List.length hadded) (by simp)

/-- A data connection is registered for an exchange exactly when the exchange is understood. -/
theorem registers_iff_understood {w : Worker} (x : Exchange w) : x.Registers ↔ x.Understood := by
  rw [x.registers_iff]
  obtain ⟨c, s, hs, cmd, hcurrent, hfound, e, hours, announcement, hword, haround⟩ := x
  cases announcement with
  | pasv before after =>
    constructor
    · rintro ⟨hcapitals, hfirst, htask, haddress, hport, htext⟩
      exact ⟨hcapitals, hfirst, htask, haddress, hport,
        (ipPortGet_phrase e haddress haround).1 htext⟩
    · rintro ⟨hcapitals, hfirst, htask, haddress, hport, htext⟩
      exact ⟨hcapitals, hfirst, htask, haddress, hport,
        (ipPortGet_phrase e haddress haround).2 htext⟩
  | port phrase =>
    constructor
    · rintro ⟨hcapitals, hfirst, htask, haddress, hport, htext⟩
      exact ⟨hcapitals, hfirst, htask, haddress, hport, Prod.mk.inj htext⟩
    · rintro ⟨hcapitals, hfirst, htask, haddress, hport, htext⟩
      exact ⟨hcapitals, hfirst, htask, haddress, hport, Prod.ext htext.1 htext.2⟩

theorem requestLine_current {w : Worker} {c : ℕ} {s : ControlSession} {line : List UInt8}
    (hs : w.controls.cell c = some s) (hword : (lineStrParse line).1 ≠ []) :
    ∃ w' s' cmd, (requestLine w c line = some w' ∧ w'.taskId = w.taskId) ∧
      w'.controls.cell c = some s' ∧
      (s'.srcIp = s.srcIp ∧ s'.dstIp = s.dstIp) ∧ s'.ftpSession.curCmd = some cmd.id ∧
      s'.ftpSession.getCmd cmd.id = some cmd ∧ cmd.cmd = cString (lineStrParse line).1 ∧
      cmd.args = cString (lineStrParse line).2 ∧ cmd.ftpDcon = none := by
  let ftpSession := s.ftpSession.cmdAdd (lineStrParse line).1 (lineStrParse line).2
  obtain ⟨controls, hwrite, hcell, -, -⟩ := Arena.write_eq hs { s with ftpSession := ftpSession }
  refine ⟨{ w with controls := controls }, { s with ftpSession := ftpSession },
    ⟨s.ftpSession.cmdList.length, cString (lineStrParse line).1, cString (lineStrParse line).2,
      none, []⟩,
    ⟨?_, rfl⟩, ?_, ⟨rfl, rfl⟩, ?_, ?_, rfl, rfl, rfl⟩
  · rw [requestLine, hs]
    simp only [Option.bind_eq_bind, Option.bind_some, Worker.setControl]
    rw [hwrite]
    rfl
  · rw [hcell, Function.update_self]
  · exact congrArg FtpSession.curCmd (if_neg hword)
  · have hadded : ftpSession.cmdList = _ := congrArg FtpSession.cmdList (if_neg hword)
    rw [FtpSession.getCmd, hadded, List.find?_cons_of_pos (by simp)]

theorem requestLine_reached (srcIp dstIp : ℕ) {line : List UInt8}
    (hword : (lineStrParse line).1 ≠ []) :
    ∃ w s cmd, runEvents (.init 1) [.open srcIp dstIp, .request 0 line] = some w ∧ w.taskId = 1 ∧
      w.controls.cell 0 = some s ∧ (s.srcIp = srcIp ∧ s.dstIp = dstIp) ∧
      s.ftpSession.curCmd = some cmd.id ∧ s.ftpSession.getCmd cmd.id = some cmd ∧
      cmd.cmd = cString (lineStrParse line).1 ∧ cmd.args = cString (lineStrParse line).2 ∧
      cmd.ftpDcon = none := by
  let opened := (Worker.init 1).controls.alloc ⟨srcIp, dstIp, ftpSessionCreate⟩
  have hs : { Worker.init 1 with controls := opened }.controls.cell 0 =
      some ⟨srcIp, dstIp, ftpSessionCreate⟩ := rfl
  obtain ⟨w, s, cmd, ⟨hrequest, htask⟩, hsession, hcurrent⟩ := requestLine_current hs hword
  refine ⟨w, s, cmd, ?_, htask, hsession, hcurrent⟩
  simp only [runEvents, List.foldlM_cons, List.foldlM_nil, step, Option.bind_eq_bind,
    Option.bind_some]
  rw [if_pos (by rw [hs]; rfl), hrequest]
  rfl

def clientEndpoint : Endpoint := ⟨10, 0, 0, 1, 4, 1⟩

def serverEndpoint : Endpoint := ⟨10, 0, 0, 2, 4, 1⟩

def passiveReply : Announcement := .pasv (bytesOf "Entering Passive Mode (") (bytesOf ").")

theorem passiveReply_no_digits :
    ∀ b ∈ bytesOf "Entering Passive Mode (" ++ bytesOf ").", isDigitByte b = false := by
  decide +kernel

theorem pasvEndpoint_registered :
    ∃ evs w, runEvents (.init 1) evs = some w ∧
      ∃ x : Exchange w, x.announcement = passiveReply ∧ x.endpoint = serverEndpoint ∧
        x.Registers := by
  obtain ⟨w, s, cmd, hreached, htask, hsession, ⟨-, hdst⟩, hcurrent, hfound, hcmd, -, hfirst⟩ :=
    @requestLine_reached clientEndpoint.address serverEndpoint.address (bytesOf "PASV") (by decide)
  let x : Exchange w :=
    { c := 0, s := s, session := hsession, cmd := cmd, current := hcurrent, found := hfound
      endpoint := serverEndpoint, ours := .inr hdst.symm
      announcement := passiveReply
      word := by rw [hcmd]; decide
      announced := passiveReply_no_digits }
  have haddress : serverEndpoint.address ≠ 0 := by decide
  have hport : serverEndpoint.port ≠ 0 := by decide
  have hword : cString (lineStrParse (bytesOf "PASV")).1 = bytesOf "PASV" := by decide
  have hzero : 0 ∉ bytesOf "Entering Passive Mode (" := by decide
  have hunderstood : x.Understood :=
    ⟨hcmd.trans hword, hfirst, htask.trans_lt (by decide), haddress, hport, hzero⟩
  exact ⟨_, w, hreached, x, rfl, rfl, (registers_iff_understood x).2 hunderstood⟩

/-- The endpoint is in the command, and the reply has no numbers. -/
theorem portEndpoint_not_registered :
    ¬ ∀ (taskId : ℕ) (evs : List Event) (w : Worker), runEvents (.init taskId) evs = some w →
      ∀ x : Exchange w, x.Registers := by
  intro h
  obtain ⟨w, s, cmd, hreached, -, hsession, ⟨hsrc, -⟩, hcurrent, hfound, hcmd, hargs, -⟩ :=
    @requestLine_reached clientEndpoint.address serverEndpoint.address
      (bytesOf "PORT " ++ clientEndpoint.text) (by decide)
  let x : Exchange w :=
    { c := 0, s := s, session := hsession, cmd := cmd, current := hcurrent, found := hfound
      endpoint := clientEndpoint, ours := .inl hsrc.symm
      announcement := .port (bytesOf "PORT command successful.")
      word := by rw [hcmd]; decide
      announced := hargs.trans (by decide) }
  obtain ⟨-, -, -, -, -, hnumbers⟩ := x.registers_iff.1 (h _ _ _ hreached x)
  have hphrase : ipPortGet (bytesOf "PORT command successful.") false ≠
      (clientEndpoint.address, clientEndpoint.port) := by
    decide +kernel
  exact hphrase hnumbers

end CloudHands.Ftp
