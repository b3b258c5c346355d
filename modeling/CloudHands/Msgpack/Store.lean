import CloudHands.Japi.Text
import CloudHands.Lib.MsgPack

/-!
# The msgpack writers

The inline functions of `lib/common/ch_msgpack_store.h`, of which
`tcp/session/ch_proto_session_store.h` has a copy. Most take a key that is written before
the value unless it is null or empty; a null key is the empty string here.
-/

namespace CloudHands.Msgpack

open Lib Japi

def text (s : String) : Token := .str (utf8Bytes s)

def withKey (k : String) (value : Token) : List Token :=
  if k.isEmpty then [value] else [text k, value]

def mapStart (k : String) (n : ℕ) : List Token := withKey k (.map n)
def arrayStart (k : String) (n : ℕ) : List Token := withKey k (.array n)
def writeUint8 (k : String) (v : UInt8) : List Token := withKey k (.uint v.toNat)
def writeUint16 (k : String) (v : UInt16) : List Token := withKey k (.uint v.toNat)
def writeUint32 (k : String) (v : UInt32) : List Token := withKey k (.uint v.toNat)
def writeUint64 (k : String) (v : UInt64) : List Token := withKey k (.uint v.toNat)
def writeBinKv (k : String) (data : List UInt8) : List Token := withKey k (.bin data)

def writeUint (k : String) (v : UInt32) : List Token := withKey k (.uint v.toNat)

/-- `ch_msgpack_write_kv`: the key is always written, and a null value is the empty text. -/
def writeKv (k : String) (v : List UInt8) : List Token := [text k, .str v]

/-- `ch_msgpack_store_write_str_wlen`: the key is always written. -/
def writeStrWlen (k : String) (str : List UInt8) : List Token := [text k, .str str]

def count16 {α : Type} (xs : List α) : ℕ := xs.length % 2 ^ 16

def count32 {α : Type} (xs : List α) : ℕ := xs.length % 2 ^ 32

theorem withKey_of_ne {k : String} (h : k.isEmpty = false) (value : Token) :
    withKey k value = [text k, value] := by
  simp [withKey, h]

end CloudHands.Msgpack
