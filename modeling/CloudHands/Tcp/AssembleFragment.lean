import CloudHands.Lib.Word

/-!
# The out-of-order fragment list of a TCP endpoint

`ch_assemble_fragment.c` keeps the data that arrived after a hole in a ring of
fragments. The ring is the list from its first to its last element; an insertion
point in the ring is a split of that list into the part before and the part
from the `after` neighbour on. Offsets and lengths are 32-bit and wrap.
The one allocation of a push is the `allocOk` argument.
-/

namespace CloudHands.Tcp

open CloudHands.Word (add sub)

/-- `ch_data_fragment_t`: `data` holds the bytes from the data pointer on. -/
structure DataFragment where
  data : List UInt8
  offset : ℕ
  len : ℕ
deriving DecidableEq, Repr

/-- The 32-bit expression `offset + len` of the source. -/
def DataFragment.stop (df : DataFragment) : ℕ := add 32 df.offset df.len

/-- The `len` bytes a copy of the fragment reads. -/
def DataFragment.bytes (df : DataFragment) : List UInt8 := df.data.take df.len

def dataFragmentCovered (a b : DataFragment) : Bool :=
  decide (b.offset ≤ a.offset) && decide (a.stop ≤ b.stop)

/-- `_data_fragment_covered_free`: the remaining ring and `is_covered`. -/
def dataFragmentCoveredFree (df : DataFragment) : List DataFragment → List DataFragment × Bool
  | [] => ([], false)
  | cur :: rest =>
    if dataFragmentCovered cur df then dataFragmentCoveredFree df rest
    else if dataFragmentCovered df cur then (cur :: rest, true)
    else
      let r := dataFragmentCoveredFree df rest
      (cur :: r.1, r.2)

/-- `_data_fragment_neighbors_get`: the ring split before its first fragment
`_after` the new one. -/
def dataFragmentNeighborsGet (df : DataFragment) (frags : List DataFragment) :
    List DataFragment × List DataFragment :=
  frags.span (fun f => !decide (df.offset ≤ f.offset))

def trimBefore (df before : DataFragment) : DataFragment :=
  if df.offset < before.stop then
    let diff := sub 32 before.stop df.offset
    { data := df.data.drop diff, len := sub 32 df.len diff, offset := add 32 df.offset diff }
  else df

def trimAfter (df after : DataFragment) : DataFragment :=
  if after.offset < df.stop then
    let diff := sub 32 df.stop after.offset
    { df with len := sub 32 df.len diff }
  else df

def dataFragmentTrim (df : DataFragment) (before after : Option DataFragment) : DataFragment :=
  let df := before.elim df (trimBefore df)
  after.elim df (trimAfter df)

def isDataFragmentsMergable (a b : DataFragment) : Bool := decide (a.stop = b.offset)

/-- `_data_fragments_merge` at the insertion point `front | back`. -/
def dataFragmentsMerge (allocOk : Bool) (df : DataFragment) (front back : List DataFragment) :
    Option (List DataFragment) :=
  let bfd := front.getLast?.filter (fun b => isDataFragmentsMergable b df)
  let afd := back.head?.filter (fun a => isDataFragmentsMergable df a)
  let offset := bfd.elim df.offset (·.offset)
  let tsize := bfd.elim df.len (fun b => add 32 df.len b.len)
  let tsize := afd.elim tsize (fun a => add 32 tsize a.len)
  if allocOk then
    let mdf : DataFragment :=
      { data := bfd.elim [] (·.bytes) ++ df.bytes ++ afd.elim [] (·.bytes)
        len := tsize
        offset := offset }
    some ((if bfd.isSome then front.dropLast else front) ++
      mdf :: (if afd.isSome then back.tail else back))
  else none

/-- `ch_assemble_fragment_push`: the new ring and whether the call returned 0. -/
def assembleFragmentPush (allocOk : Bool) (frags : List DataFragment) (data : List UInt8)
    (dlen offset : ℕ) : List DataFragment × Bool :=
  let tmp : DataFragment := { data := data, len := dlen, offset := offset }
  let r := dataFragmentCoveredFree tmp frags
  if r.2 then (r.1, true)
  else
    let nb := dataFragmentNeighborsGet tmp r.1
    let tmp := dataFragmentTrim tmp nb.1.getLast? nb.2.head?
    if tmp.len = 0 then (r.1, true)
    else
      match dataFragmentsMerge allocOk tmp nb.1 nb.2 with
      | none => (r.1, false)
      | some frags => (frags, true)

def isCoveredAll (df : DataFragment) (lastOffset : ℕ) : Bool := decide (df.stop ≤ lastOffset)

def isCoveredPartial (df : DataFragment) (lastOffset : ℕ) : Bool :=
  decide (lastOffset < df.stop) && decide (df.offset < lastOffset)

def dataFragmentsCoveredFree (lastOffset : ℕ) : List DataFragment → List DataFragment
  | [] => []
  | df :: rest =>
    if isCoveredAll df lastOffset then dataFragmentsCoveredFree lastOffset rest
    else if isCoveredPartial df lastOffset then
      let diff := sub 32 lastOffset df.offset
      { data := df.data.drop diff, len := sub 32 df.len diff,
        offset := add 32 df.offset diff } :: rest
    else df :: rest

/-- `ch_assemble_fragment_pop`: the fragment handed out and the remaining ring. -/
def assembleFragmentPop (frags : List DataFragment) (lastOffset : ℕ) :
    Option DataFragment × List DataFragment :=
  match dataFragmentsCoveredFree lastOffset frags with
  | [] => (none, [])
  | df :: rest => if lastOffset = df.offset then (some df, rest) else (none, df :: rest)

end CloudHands.Tcp
