import CloudHands.Http.LineParse

/-!
# Telnet parser

`do_telnet_parse.c`. The pieces of a stream are written to its content file one after the other,
each without the commands it starts with.
-/

namespace CloudHands.Telnet

open Http (CR LF)

def iac : UInt8 := 255

def sb : UInt8 := 250

def se : UInt8 := 240

/-- A piece of the stream, and what lies behind it in memory. -/
structure Segment where
  data : List UInt8
  behind : ℕ → UInt8

def Segment.byte (seg : Segment) (ptr : ℕ) : UInt8 :=
  seg.data.getD ptr (seg.behind (ptr - seg.data.length))

def subOptionEnd (seg : Segment) : ℕ → ℕ → ℕ
  | 0, ptr => ptr + 1
  | fuel + 1, ptr =>
    if seg.byte (ptr + 1) ≠ iac ∧ ptr + 1 < seg.data.length then subOptionEnd seg fuel (ptr + 1)
    else ptr + 1

structure Skip where
  len : ℕ
  reach : ℕ
deriving DecidableEq, Repr

/-- The loop of `skip_command`, with fuel for the commands. -/
def skipLoop (seg : Segment) : ℕ → ℕ → ℕ → Skip
  | 0, ptr, reach => ⟨ptr, reach⟩
  | fuel + 1, ptr, reach =>
    if ptr < seg.data.length then
      if seg.byte ptr = iac then
        if seg.byte (ptr + 1) = sb then
          let stop := subOptionEnd seg seg.data.length (ptr + 1)
          skipLoop seg fuel (stop + 2) (max reach (stop + 1))
        else skipLoop seg fuel (ptr + 3) (max reach (ptr + 2))
      else ⟨ptr, max reach (ptr + 1)⟩
    else ⟨ptr, reach⟩

/-- `skip_command`. -/
def skipCommand (seg : Segment) : Skip := skipLoop seg seg.data.length 0 0

/-- The loop of `convert_zeros`; `before` is the byte before the pointer, none at the start. -/
def convertZerosFrom (before : Option UInt8) : List UInt8 → List UInt8
  | [] => []
  | b :: rest =>
    let b' := if b = 0 then (if before = some CR then LF else 32) else b
    b' :: convertZerosFrom (some b') rest

/-- `convert_zeros`. -/
def convertZeros (data : List UInt8) : List UInt8 := convertZerosFrom none data

/-- What `_do_content_process` writes of a piece. -/
def doContentProcess (seg : Segment) : List UInt8 :=
  if seg.data = [] then []
  else
    let offset := (skipCommand seg).len
    if offset < seg.data.length then convertZeros (seg.data.drop offset) else []

def contentFile (pieces : List Segment) : List UInt8 := pieces.flatMap doContentProcess

def InBounds (seg : Segment) : Prop :=
  (skipCommand seg).len ≤ seg.data.length ∧ (skipCommand seg).reach ≤ seg.data.length

end CloudHands.Telnet
