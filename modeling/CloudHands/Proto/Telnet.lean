import CloudHands.Proto.Store
import CloudHands.Telnet.Filter
import CloudHands.Telnet.Login

/-!
# Telnet sessions

`do_telnet_session_format`, which looks for the login when a session is stored, and
`TelnetSession.parse`.
-/

namespace CloudHands.Proto

open Lib Lib.TokenReader Msgpack Japi Telnet

def PROTOCOL_TELNET : UInt32 := 6

def telnetFields (login : Login) (contentFpath : List UInt8) : List Token :=
  mapStart "telnet" 3 ++ (writeKv "user" login.user ++ (writeKv "passwd" login.password ++
    writeKv "contentPath" contentFpath))

/-- `do_telnet_session_format` for a content file; none when the search leaves its buffers. -/
def telnetSessionFormat (content contentFpath : List UInt8) : Option (List Token) := do
  let login ← (if 0 < content.length then loginParse (loginText content) else some ⟨[], []⟩)
  some (telnetFields login contentFpath)

structure TelnetSession where
  sessionEntry : TCPSessionEntry
  user : String
  passwd : String
  contentPath : String

def TelnetSession.parse (env : Env) : Unpacker TelnetSession := do
  let n ← unpackMapHeader
  check (n = 2)
  let entry ← parseCommon
  parseMapOf 3
  let user ← parseText env.replaced
  let passwd ← parseText env.replaced
  let contentPath ← parseText env.replaced
  pure ⟨entry, user, passwd, contentPath⟩

structure TelnetSession.Same (got : TelnetSession) (t : TcpSession) (login : Login)
    (contentFpath : List UInt8) : Prop where
  sessionEntry : got.sessionEntry.Same t
  user : SameText got.user login.user
  passwd : SameText got.passwd login.password
  contentPath : SameText got.contentPath contentFpath

structure TelnetReadable (login : Login) (contentFpath : List UInt8) : Prop where
  user : TextReadable login.user
  passwd : TextReadable login.password
  contentPath : TextReadable contentFpath

section Record

variable {env : Env} {t : TcpSession} {login : Login} {contentFpath : List UInt8}
  {format : List Token}

theorem telnet_agrees_iff (ht : Storable t) :
    Agrees (TelnetSession.parse env) (protoSessionStore t (telnetFields login contentFpath))
      (·.Same t login contentFpath) ↔ TelnetReadable login contentFpath := by
  constructor
  · rintro ⟨got, hrun, hsame⟩
    rw [TelnetSession.parse, record_run (P := (· = 2)) rfl ht, telnetFields,
      (yields_mapOf (by omega) rfl).bind_run] at hrun
    obtain ⟨huser, hrun⟩ := text_bind_run hrun
    obtain ⟨hpasswd, hrun⟩ := text_bind_run hrun
    rw [← List.append_nil (writeKv "contentPath" contentFpath)] at hrun
    obtain ⟨hpath, hrun⟩ := text_bind_run hrun
    obtain ⟨rfl, -⟩ := Prod.mk.inj (Option.some.inj hrun)
    exact ⟨⟨huser, decodeText_same_iff.1 hsame.user⟩, ⟨hpasswd, decodeText_same_iff.1 hsame.passwd⟩,
      ⟨hpath, decodeText_same_iff.1 hsame.contentPath⟩⟩
  · intro h
    refine ⟨⟨commonOf t, decodeText env.replaced login.user, decodeText env.replaced login.password,
      decodeText env.replaced contentFpath⟩, ?_, ⟨commonOf_same t, h.user.same, h.passwd.same,
      h.contentPath.same⟩⟩
    rw [TelnetSession.parse, record_run (P := (· = 2)) rfl ht]
    exact Yields.run <| (yields_mapOf (by omega) rfl).bind <| (yields_text h.user.1).bind <|
      (yields_text h.passwd.1).bind <| (yields_text h.contentPath.1).bind_pure (yields_pure _)

end Record

section Reported

variable {env : Env} {t : TcpSession} {units : List TelnetUnit} {pieces : List Segment}
  {d : TelnetLogin}
  {contentFpath : List UInt8}

theorem telnetSessionFormat_login (haligned : Aligned 0 units pieces) (hhandled : Handled units)
    (htext : (content units).take TELNET_LOGIN_SIZE = d.text) (hprompted : d.Prompted)
    (hfits : d.Fits) :
    telnetSessionFormat (contentFile pieces) contentFpath =
      some (telnetFields ⟨echoRemove (echoed d.blank d.name), d.password⟩ contentFpath) := by
  have hfile : contentFile pieces = content units := (filtered_of_aligned haligned hhandled).1
  have hsearched : loginText (contentFile pieces) = d.text := by
    rw [loginText_contentFile, hfile, htext]
  have hpos : 0 < (contentFile pieces).length := by
    have hlen := congrArg List.length htext
    rw [List.length_take, ← hfile] at hlen
    simp only [TelnetLogin.text, List.length_append, List.length_cons] at hlen
    omega
  rw [telnetSessionFormat, if_pos hpos, hsearched, TelnetLogin.loginParse_text hprompted hfits]
  rfl

def rootLogin : TelnetLogin :=
  ⟨Http.bytesOf "ab ", "login:", true, Http.bytesOf "root", [Http.LF], Http.bytesOf "pw", [Http.LF]⟩

theorem rootLogin_prompted : rootLogin.Prompted where
  prefixed := by decide +kernel
  last := by
    have hfirst : strcasestr rootLogin.text 0 rootLogin.prompt = some 3 := by decide +kernel
    obtain ⟨hoccurs, hleast⟩ := (strcasestr_eq_some_iff (by decide)).1 hfirst
    have hlast : IsLeast {k | occursAt rootLogin.text rootLogin.prompt k = true} 3 :=
      ⟨hoccurs.2, fun k hk => hleast ⟨Nat.zero_le k, hk⟩⟩
    have hgreatest := lastLogin_isGreatest (by decide) hlast
      (Nat.le_add_left rootLogin.text.length 3) (Nat.le_refl 3) (kept_first hlast)
    have hresult : lastLogin rootLogin.text rootLogin.prompt rootLogin.text.length 3 3 =
        rootLogin.banner.length := by decide +kernel
    rwa [hresult] at hgreatest
  asked := (strcasestr_eq_some_iff password_ne_nil).1 (by decide +kernel)
  name_line := by decide
  password_line := by decide

theorem rootLogin_fits : rootLogin.Fits := ⟨by decide, by decide⟩

def rootUnits : List TelnetUnit := rootLogin.text.map .data

theorem rootUnits_handled : Handled rootUnits := by
  intro u hu
  obtain ⟨b, hb, rfl⟩ := List.mem_map.1 hu
  have hiac : iac ∉ rootLogin.text := by decide +kernel
  exact ⟨trivial, fun heq => hiac (heq ▸ hb)⟩

theorem rootUnits_aligned : Aligned 0 rootUnits [piece rootLogin.text] := by
  have haligned : Aligned 0 ([] ++ (rootLogin.text.map .data ++ [])) [piece rootLogin.text] :=
    .piece (List.forall_mem_nil _) rfl (by decide +kernel) (by decide +kernel) .nil
  rwa [List.nil_append, List.append_nil] at haligned

end Reported

end CloudHands.Proto
