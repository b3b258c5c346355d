import Mathlib.Data.List.TakeWhile
import CloudHands.Lib.Slice
import CloudHands.Tcp.AssembleFragment

/-!
# The invariant of the fragment list

Fragments are non-empty, sorted, and separated by at least one missing byte.
A push adds exactly the pushed positions to the covered set, a pop after the
delivered prefix grew to `lastOffset` removes exactly the positions below it.
-/

namespace CloudHands.Tcp

open CloudHands.Word (add sub)
open CloudHands.Slice

def DataFragment.Ok (f : DataFragment) : Prop :=
  0 < f.len ∧ f.offset + f.len < 2 ^ 32 ∧ f.data.length = f.len

/-- `a` ends strictly before `b` starts. -/
def Apart (a b : DataFragment) : Prop := a.offset + a.len < b.offset

def FragmentsOk (l : List DataFragment) : Prop := (∀ f ∈ l, f.Ok) ∧ l.Pairwise Apart

def DataFragment.range (f : DataFragment) : Set ℕ := Set.Ico f.offset (f.offset + f.len)

def covered (l : List DataFragment) : Set ℕ := {i | ∃ f ∈ l, i ∈ f.range}

/-- The fragment holds the bytes of the stream `s` at its own positions. -/
def DataFragment.Carries (s : List UInt8) (f : DataFragment) : Prop :=
  f.bytes = slice s f.offset (f.offset + f.len)

theorem DataFragment.Ok.stop_eq {f : DataFragment} (h : f.Ok) : f.stop = f.offset + f.len :=
  Word.add_of_lt h.2.1

theorem DataFragment.mem_range {f : DataFragment} {i : ℕ} :
    i ∈ f.range ↔ f.offset ≤ i ∧ i < f.offset + f.len := Iff.rfl

@[simp] theorem covered_nil : covered [] = ∅ := by simp [covered]

@[simp] theorem covered_cons (f : DataFragment) (l : List DataFragment) :
    covered (f :: l) = f.range ∪ covered l := by
  ext i
  simp [covered]

@[simp] theorem covered_append (l m : List DataFragment) :
    covered (l ++ m) = covered l ∪ covered m := by
  ext i
  simp only [covered, List.mem_append, Set.mem_ofPred_eq, Set.mem_union]
  constructor
  · rintro ⟨f, hf | hf, hi⟩
    · exact Or.inl ⟨f, hf, hi⟩
    · exact Or.inr ⟨f, hf, hi⟩
  · rintro (⟨f, hf, hi⟩ | ⟨f, hf, hi⟩)
    · exact ⟨f, Or.inl hf, hi⟩
    · exact ⟨f, Or.inr hf, hi⟩

theorem FragmentsOk.nil : FragmentsOk [] := ⟨by simp, List.Pairwise.nil⟩

theorem FragmentsOk.sublist {l m : List DataFragment} (h : FragmentsOk m) (hs : l.Sublist m) :
    FragmentsOk l :=
  ⟨fun f hf => h.1 f (hs.subset hf), h.2.sublist hs⟩

theorem fragmentsOk_append {l m : List DataFragment} :
    FragmentsOk (l ++ m) ↔
      FragmentsOk l ∧ FragmentsOk m ∧ ∀ a ∈ l, ∀ b ∈ m, Apart a b := by
  simp only [FragmentsOk, List.mem_append, List.pairwise_append]
  constructor
  · rintro ⟨hok, hl, hm, hlm⟩
    exact ⟨⟨fun f hf => hok f (Or.inl hf), hl⟩, ⟨fun f hf => hok f (Or.inr hf), hm⟩, hlm⟩
  · rintro ⟨⟨hlok, hl⟩, ⟨hmok, hm⟩, hlm⟩
    exact ⟨fun f hf => hf.elim (hlok f) (hmok f), hl, hm, hlm⟩

theorem fragmentsOk_cons {f : DataFragment} {l : List DataFragment} :
    FragmentsOk (f :: l) ↔ f.Ok ∧ FragmentsOk l ∧ ∀ b ∈ l, Apart f b := by
  simp only [FragmentsOk, List.mem_cons, List.pairwise_cons, forall_eq_or_imp]
  grind

theorem coveredFree_sublist (df : DataFragment) (l : List DataFragment) :
    (dataFragmentCoveredFree df l).1.Sublist l := by
  induction l with
  | nil => exact List.Sublist.refl _
  | cons cur rest ih =>
    simp only [dataFragmentCoveredFree]
    split_ifs with h₁ h₂
    · exact ih.cons cur
    · exact List.Sublist.refl _
    · exact ih.cons_cons cur

theorem coveredFree_removed (df : DataFragment) (l : List DataFragment) :
    ∀ f ∈ l, f ∈ (dataFragmentCoveredFree df l).1 ∨ dataFragmentCovered f df = true := by
  induction l with
  | nil => simp
  | cons cur rest ih =>
    intro f hf
    simp only [dataFragmentCoveredFree]
    split_ifs with h₁ h₂
    · rcases List.mem_cons.mp hf with rfl | hf
      · exact Or.inr h₁
      · exact ih f hf
    · exact Or.inl hf
    · rcases List.mem_cons.mp hf with rfl | hf
      · exact Or.inl (by simp)
      · exact (ih f hf).imp_left (List.mem_cons_of_mem _)

theorem coveredFree_hit (df : DataFragment) (l : List DataFragment)
    (h : (dataFragmentCoveredFree df l).2 = true) :
    ∃ f ∈ (dataFragmentCoveredFree df l).1, dataFragmentCovered df f = true := by
  induction l with
  | nil => simp [dataFragmentCoveredFree] at h
  | cons cur rest ih =>
    simp only [dataFragmentCoveredFree] at h ⊢
    split_ifs at h ⊢ with h₁ h₂
    · exact ih h
    · exact ⟨cur, by simp, h₂⟩
    · obtain ⟨f, hf, hc⟩ := ih h
      exact ⟨f, by simp [hf], hc⟩

theorem coveredFree_miss (df : DataFragment) (l : List DataFragment)
    (h : (dataFragmentCoveredFree df l).2 = false) :
    ∀ f ∈ (dataFragmentCoveredFree df l).1,
      dataFragmentCovered f df = false ∧ dataFragmentCovered df f = false := by
  induction l with
  | nil => simp [dataFragmentCoveredFree]
  | cons cur rest ih =>
    simp only [dataFragmentCoveredFree] at h ⊢
    split_ifs at h ⊢ with h₁ h₂
    · exact ih h
    · intro f hf
      rcases List.mem_cons.mp hf with rfl | hf
      · exact ⟨by simpa using h₁, by simpa using h₂⟩
      · exact ih h f hf

theorem range_subset_of_covered {a b : DataFragment} (ha : a.Ok)
    (hb : b.offset + b.len < 2 ^ 32) (h : dataFragmentCovered a b = true) :
    a.range ⊆ b.range := by
  have hbs : b.stop = b.offset + b.len := Word.add_of_lt hb
  simp only [dataFragmentCovered, Bool.and_eq_true, decide_eq_true_eq, ha.stop_eq, hbs] at h
  intro i hi
  rw [DataFragment.mem_range] at hi ⊢
  omega

theorem coveredFree_covered {df : DataFragment} {l : List DataFragment} (hl : FragmentsOk l)
    (hdf : df.offset + df.len < 2 ^ 32) :
    covered (dataFragmentCoveredFree df l).1 ∪ df.range = covered l ∪ df.range := by
  apply Set.Subset.antisymm
  · apply Set.union_subset_union_left
    rintro i ⟨f, hf, hi⟩
    exact ⟨f, (coveredFree_sublist df l).subset hf, hi⟩
  · rintro i (⟨f, hf, hi⟩ | hi)
    · rcases coveredFree_removed df l f hf with hm | hc
      · exact Or.inl ⟨f, hm, hi⟩
      · exact Or.inr (range_subset_of_covered (hl.1 f hf) hdf hc hi)
    · exact Or.inr hi

/-- A fragment under construction: its data may run past its length. -/
def DataFragment.Piece (f : DataFragment) : Prop :=
  0 < f.len ∧ f.offset + f.len < 2 ^ 32 ∧ f.len ≤ f.data.length

theorem DataFragment.Piece.stop_eq {f : DataFragment} (h : f.Piece) :
    f.stop = f.offset + f.len := Word.add_of_lt h.2.1

theorem neighborsGet_append (df : DataFragment) (l : List DataFragment) :
    (dataFragmentNeighborsGet df l).1 ++ (dataFragmentNeighborsGet df l).2 = l := by
  simp [dataFragmentNeighborsGet, List.span_eq_takeWhile_dropWhile]

theorem neighborsGet_front (df : DataFragment) (l : List DataFragment) :
    ∀ f ∈ (dataFragmentNeighborsGet df l).1, f.offset < df.offset := by
  intro f hf
  simp only [dataFragmentNeighborsGet, List.span_eq_takeWhile_dropWhile] at hf
  simpa using List.mem_takeWhile_imp hf

theorem neighborsGet_back {df : DataFragment} {l : List DataFragment} (hl : FragmentsOk l) :
    ∀ f ∈ (dataFragmentNeighborsGet df l).2, df.offset ≤ f.offset := by
  have hok : FragmentsOk (dataFragmentNeighborsGet df l).2 := by
    have h := neighborsGet_append df l ▸ hl
    exact (fragmentsOk_append.mp h).2.1
  have hhead : ∀ a, (dataFragmentNeighborsGet df l).2.head? = some a → df.offset ≤ a.offset := by
    intro a ha
    simp only [dataFragmentNeighborsGet, List.span_eq_takeWhile_dropWhile] at ha
    have h := List.head?_dropWhile_not (fun f : DataFragment => !decide (df.offset ≤ f.offset)) l
    rw [ha] at h
    simpa using h
  cases hb : (dataFragmentNeighborsGet df l).2 with
  | nil => simp
  | cons a rest =>
    rw [hb] at hok hhead
    have ha := hhead a rfl
    intro f hf
    rcases List.mem_cons.mp hf with rfl | hf
    · exact ha
    · have hap := (fragmentsOk_cons.mp hok).2.2 f hf
      unfold Apart at hap
      omega

theorem trimBefore_spec {df b : DataFragment} (hdf : df.Piece) (hb : b.Ok)
    (hend : b.offset + b.len < df.offset + df.len) :
    (trimBefore df b).Piece ∧ (trimBefore df b).offset = max df.offset (b.offset + b.len) ∧
      (trimBefore df b).offset + (trimBefore df b).len = df.offset + df.len := by
  obtain ⟨hpos, hbound, hdata⟩ := hdf
  by_cases h : df.offset < b.offset + b.len
  · have hdiff : sub 32 (b.offset + b.len) df.offset = b.offset + b.len - df.offset :=
      Word.sub_of_le hb.2.1 h.le
    have hlen : sub 32 df.len (b.offset + b.len - df.offset) =
        df.len - (b.offset + b.len - df.offset) := Word.sub_of_le (by omega) (by omega)
    have hoff : add 32 df.offset (b.offset + b.len - df.offset) = b.offset + b.len := by
      rw [Word.add_of_lt (by omega)]
      omega
    simp only [trimBefore, hb.stop_eq, h, if_true, hdiff, hlen, hoff, DataFragment.Piece,
      List.length_drop]
    omega
  · have htrim : trimBefore df b = df := by simp [trimBefore, hb.stop_eq, h]
    rw [htrim]
    exact ⟨⟨hpos, hbound, hdata⟩, by omega, rfl⟩

theorem trimBefore_carries {s : List UInt8} {df b : DataFragment} (hdf : df.Piece) (hb : b.Ok)
    (hend : b.offset + b.len < df.offset + df.len) (hs : df.Carries s) :
    (trimBefore df b).Carries s := by
  obtain ⟨-, hoff, hlen⟩ := trimBefore_spec hdf hb hend
  by_cases h : df.offset < b.offset + b.len
  · have hdiff : sub 32 (b.offset + b.len) df.offset = b.offset + b.len - df.offset :=
      Word.sub_of_le hb.2.1 h.le
    have hdata : (trimBefore df b).data = df.data.drop (b.offset + b.len - df.offset) := by
      simp [trimBefore, hb.stop_eq, h, hdiff]
    have hlen' : (trimBefore df b).len = df.len - (b.offset + b.len - df.offset) := by omega
    unfold DataFragment.Carries DataFragment.bytes at hs ⊢
    rw [hlen, hdata, hlen', hoff, ← List.drop_take, hs, drop_slice]
    congr 1
    omega
  · simpa only [trimBefore, hb.stop_eq, h, if_false] using hs

theorem trimAfter_spec {df a : DataFragment} (hdf : df.Piece) (ha : df.offset < a.offset) :
    (trimAfter df a).Piece ∧ (trimAfter df a).offset = df.offset ∧
      (trimAfter df a).offset + (trimAfter df a).len = min (df.offset + df.len) a.offset := by
  have hstop := hdf.stop_eq
  obtain ⟨hpos, hbound, hdata⟩ := hdf
  by_cases h : a.offset < df.offset + df.len
  · have hdiff : sub 32 (df.offset + df.len) a.offset = df.offset + df.len - a.offset :=
      Word.sub_of_le hbound h.le
    have hlen : sub 32 df.len (df.offset + df.len - a.offset) =
        df.len - (df.offset + df.len - a.offset) := Word.sub_of_le (by omega) (by omega)
    have htrim : trimAfter df a = { df with len := df.len - (df.offset + df.len - a.offset) } := by
      simp [trimAfter, hstop, h, hdiff, hlen]
    rw [htrim]
    refine ⟨⟨?_, ?_, ?_⟩, rfl, ?_⟩ <;> dsimp only <;> omega
  · have htrim : trimAfter df a = df := by simp [trimAfter, hstop, h]
    rw [htrim]
    exact ⟨⟨hpos, hbound, hdata⟩, rfl, by omega⟩

theorem trimAfter_carries {s : List UInt8} {df a : DataFragment} (hdf : df.Piece)
    (ha : df.offset < a.offset) (hs : df.Carries s) : (trimAfter df a).Carries s := by
  obtain ⟨-, hoff, hend⟩ := trimAfter_spec hdf ha
  have hdata : (trimAfter df a).data = df.data := by
    unfold trimAfter
    split_ifs <;> rfl
  have hle : (trimAfter df a).len ≤ df.len := by omega
  unfold DataFragment.Carries DataFragment.bytes at hs ⊢
  rw [hdata, hoff,
    ← take_slice s (show df.offset + (trimAfter df a).len ≤ df.offset + df.len by omega),
    ← hs, List.take_take, Nat.min_eq_left hle]

structure Around (df : DataFragment) (front back : List DataFragment) : Prop where
  ok : FragmentsOk (front ++ back)
  piece : df.Piece
  front_lt : ∀ f ∈ front, f.offset < df.offset ∧ f.offset + f.len < df.offset + df.len
  back_lt : ∀ f ∈ back, df.offset < f.offset ∧ df.offset + df.len < f.offset + f.len

/-- The new fragment lies inside the gap between the two sides. -/
structure Fits (df : DataFragment) (front back : List DataFragment) : Prop where
  ok : FragmentsOk (front ++ back)
  piece : df.Piece
  front_le : ∀ f ∈ front, f.offset + f.len ≤ df.offset
  back_le : ∀ f ∈ back, df.offset + df.len ≤ f.offset

def trimLeft (df : DataFragment) (front : List DataFragment) : DataFragment :=
  front.getLast?.elim df (trimBefore df)

def trimRight (df : DataFragment) (back : List DataFragment) : DataFragment :=
  back.head?.elim df (trimAfter df)

theorem dataFragmentTrim_eq (df : DataFragment) (front back : List DataFragment) :
    dataFragmentTrim df front.getLast? back.head? = trimRight (trimLeft df front) back := rfl

theorem trimLeft_spec {df : DataFragment} {front back : List DataFragment}
    (h : Around df front back) :
    Around (trimLeft df front) front back ∧ df.offset ≤ (trimLeft df front).offset ∧
      (∀ f ∈ front, f.offset + f.len ≤ (trimLeft df front).offset) ∧
      (∀ i, i ∈ (trimLeft df front).range ∨ i ∈ covered front ↔ i ∈ df.range ∨ i ∈ covered front) ∧
      ∀ s, df.Carries s → (trimLeft df front).Carries s := by
  rcases List.eq_nil_or_concat' front with rfl | ⟨front, b, rfl⟩
  · exact ⟨h, le_rfl, by simp, fun i => Iff.rfl, fun s hs => hs⟩
  · have htrim : trimLeft df (front ++ [b]) = trimBefore df b := by simp [trimLeft]
    have hb : b.Ok := h.ok.1 b (by simp)
    obtain ⟨hboff, hbend⟩ := h.front_lt b (by simp)
    obtain ⟨hpiece, hoff, hend⟩ := trimBefore_spec h.piece hb hbend
    have hfront := fragmentsOk_append.mp (fragmentsOk_append.mp h.ok).1
    have hback := (fragmentsOk_append.mp h.ok).2.2
    rw [htrim]
    refine ⟨⟨h.ok, hpiece, ?_, ?_⟩, by omega, ?_, ?_,
      fun s hs => trimBefore_carries h.piece hb hbend hs⟩
    · intro f hf
      have h₁ := h.front_lt f hf
      omega
    · intro f hf
      have h₁ := h.back_lt f hf
      have h₂ := hback b (by simp) f hf
      unfold Apart at h₂
      omega
    · intro f hf
      rcases List.mem_append.mp hf with hf | hf
      · have h₁ := hfront.2.2 f hf b (by simp)
        unfold Apart at h₁
        omega
      · obtain rfl := List.mem_singleton.mp hf
        omega
    · intro i
      have hi : i ∈ (trimBefore df b).range ∨ i ∈ b.range ↔ i ∈ df.range ∨ i ∈ b.range := by
        simp only [DataFragment.mem_range]
        omega
      simp only [covered_append, covered_cons, covered_nil, Set.union_empty, Set.mem_union]
      grind

theorem trimRight_spec {df : DataFragment} {front back : List DataFragment}
    (h : Around df front back) (hfront : ∀ f ∈ front, f.offset + f.len ≤ df.offset) :
    Fits (trimRight df back) front back ∧ (trimRight df back).offset = df.offset ∧
      (∀ i, i ∈ (trimRight df back).range ∨ i ∈ covered back ↔ i ∈ df.range ∨ i ∈ covered back) ∧
      ∀ s, df.Carries s → (trimRight df back).Carries s := by
  cases back with
  | nil => exact ⟨⟨h.ok, h.piece, hfront, by simp⟩, rfl, fun i => Iff.rfl, fun s hs => hs⟩
  | cons a back =>
    obtain ⟨haoff, haend⟩ := h.back_lt a (by simp)
    obtain ⟨hpiece, hoff, hend⟩ := trimAfter_spec h.piece haoff
    have hback := fragmentsOk_cons.mp (fragmentsOk_append.mp h.ok).2.1
    change Fits (trimAfter df a) front (a :: back) ∧ (trimAfter df a).offset = df.offset ∧
      (∀ i, i ∈ (trimAfter df a).range ∨ _ ↔ _) ∧ ∀ s, df.Carries s → (trimAfter df a).Carries s
    refine ⟨⟨h.ok, hpiece, fun f hf => hoff ▸ hfront f hf, ?_⟩, hoff, ?_,
      fun s hs => trimAfter_carries h.piece haoff hs⟩
    · intro f hf
      rcases List.mem_cons.mp hf with rfl | hf
      · omega
      · have h₁ := hback.2.2 f hf
        unfold Apart at h₁
        omega
    · intro i
      have hi : i ∈ (trimAfter df a).range ∨ i ∈ a.range ↔ i ∈ df.range ∨ i ∈ a.range := by
        simp only [DataFragment.mem_range]
        omega
      simp only [covered_cons, Set.mem_union]
      grind

theorem dataFragmentTrim_spec {df : DataFragment} {front back : List DataFragment}
    (h : Around df front back) :
    Fits (dataFragmentTrim df front.getLast? back.head?) front back ∧
      df.offset ≤ (dataFragmentTrim df front.getLast? back.head?).offset ∧
      (dataFragmentTrim df front.getLast? back.head?).range ∪ covered (front ++ back) =
        df.range ∪ covered (front ++ back) ∧
      ∀ s, df.Carries s → (dataFragmentTrim df front.getLast? back.head?).Carries s := by
  rw [dataFragmentTrim_eq]
  obtain ⟨haround, hoff, hfront, hcov, hcarry⟩ := trimLeft_spec h
  obtain ⟨hfits, hoff', hcov', hcarry'⟩ := trimRight_spec haround hfront
  refine ⟨hfits, by omega, ?_, fun s hs => hcarry' s (hcarry s hs)⟩
  ext i
  have h₁ := hcov i
  have h₂ := hcov' i
  simp only [covered_append, Set.mem_union]
  grind

def joinBefore (df : DataFragment) (front : List DataFragment) :
    List DataFragment × DataFragment :=
  match front.getLast?.filter (fun b => isDataFragmentsMergable b df) with
  | none => (front, { df with data := df.bytes })
  | some b => (front.dropLast,
      { data := b.bytes ++ df.bytes, len := add 32 df.len b.len, offset := b.offset })

def joinAfter (df : DataFragment) (back : List DataFragment) :
    DataFragment × List DataFragment :=
  match back.head?.filter (fun a => isDataFragmentsMergable df a) with
  | none => (df, back)
  | some a => ({ df with data := df.data ++ a.bytes, len := add 32 df.len a.len }, back.tail)

theorem dataFragmentsMerge_eq {df : DataFragment} {front back : List DataFragment}
    (h : (joinBefore df front).2.stop = df.stop) :
    dataFragmentsMerge true df front back =
      some ((joinBefore df front).1 ++
        (joinAfter (joinBefore df front).2 back).1 ::
        (joinAfter (joinBefore df front).2 back).2) := by
  have hm : ∀ a, isDataFragmentsMergable (joinBefore df front).2 a =
      isDataFragmentsMergable df a := by
    intro a
    simp [isDataFragmentsMergable, h]
  simp only [joinAfter, hm, dataFragmentsMerge, if_true]
  cases hb : front.getLast?.filter (fun b => isDataFragmentsMergable b df) <;>
    cases ha : back.head?.filter (fun a => isDataFragmentsMergable df a) <;>
    simp [joinBefore, hb]

/-- `t` and `l'` hold what `df` and the side `l` held. -/
structure Joined (df t : DataFragment) (l l' : List DataFragment) : Prop where
  sublist : l'.Sublist l
  ok : t.Ok
  cover : ∀ i, i ∈ t.range ∨ i ∈ covered l' ↔ i ∈ df.range ∨ i ∈ covered l
  carries : ∀ s, (∀ f ∈ l, f.Carries s) → df.Carries s → t.Carries s

theorem DataFragment.Piece.copy {df : DataFragment} (h : df.Piece) :
    ({ df with data := df.bytes } : DataFragment).Ok := by
  refine ⟨h.1, h.2.1, ?_⟩
  have := h.2.2
  simp only [DataFragment.bytes, List.length_take]
  omega

theorem Joined.copy {df : DataFragment} (h : df.Piece) (l : List DataFragment) :
    Joined df { df with data := df.bytes } l l := by
  refine ⟨List.Sublist.refl _, h.copy, fun i => Iff.rfl, ?_⟩
  intro s _ hs
  unfold DataFragment.Carries at hs ⊢
  rw [← hs]
  simp [DataFragment.bytes]

theorem Piece.bytes_length {f : DataFragment} (h : f.Piece) : f.bytes.length = f.len := by
  have := h.2.2
  simp only [DataFragment.bytes, List.length_take]
  omega

theorem DataFragment.Ok.piece {f : DataFragment} (h : f.Ok) : f.Piece :=
  ⟨h.1, h.2.1, h.2.2.ge⟩

def joined (a b : DataFragment) : DataFragment :=
  { data := a.bytes ++ b.bytes, len := a.len + b.len, offset := a.offset }

theorem joined_ok {a b : DataFragment} (ha : a.Piece) (hb : b.Piece)
    (h : a.offset + a.len = b.offset) : (joined a b).Ok := by
  have h₁ := ha.1
  have h₂ := hb.2.1
  refine ⟨?_, ?_, ?_⟩
  · simp only [joined]
    omega
  · simp only [joined]
    omega
  · simp [joined, Piece.bytes_length ha, Piece.bytes_length hb]

theorem mem_joined_range {a b : DataFragment} (ha : 0 < a.len) (h : a.offset + a.len = b.offset)
    (i : ℕ) : i ∈ (joined a b).range ↔ i ∈ a.range ∨ i ∈ b.range := by
  simp only [DataFragment.mem_range, joined]
  omega

theorem joined_carries {a b : DataFragment} (ha : a.Piece) (hb : b.Piece)
    (h : a.offset + a.len = b.offset) {s : List UInt8} (has : a.Carries s) (hbs : b.Carries s) :
    (joined a b).Carries s := by
  have hok := joined_ok ha hb h
  have hlen : (joined a b).offset + (joined a b).len = b.offset + b.len := by
    simp only [joined]
    omega
  unfold DataFragment.Carries
  rw [DataFragment.bytes, List.take_of_length_le hok.2.2.le, hlen]
  change a.bytes ++ b.bytes = slice s a.offset (b.offset + b.len)
  rw [has, hbs, ← h]
  exact slice_append s (by omega) (by omega)

theorem joinBefore_spec {df : DataFragment} {front back : List DataFragment}
    (h : Fits df front back) :
    Joined df (joinBefore df front).2 front (joinBefore df front).1 ∧
      (joinBefore df front).2.offset + (joinBefore df front).2.len = df.offset + df.len ∧
      ∀ f ∈ (joinBefore df front).1, Apart f (joinBefore df front).2 := by
  rcases List.eq_nil_or_concat' front with rfl | ⟨front, b, rfl⟩
  · exact ⟨Joined.copy h.piece [], rfl, by simp [joinBefore]⟩
  · have hb : b.Ok := h.ok.1 b (by simp)
    have hbdf := h.front_le b (by simp)
    have hfb := fragmentsOk_append.mp (fragmentsOk_append.mp h.ok).1
    have hap : ∀ f ∈ front, f.offset + f.len < b.offset := fun f hf => hfb.2.2 f hf b (by simp)
    by_cases hm : b.offset + b.len = df.offset
    · have hlen : add 32 df.len b.len = b.len + df.len := by
        have := h.piece.2.1
        rw [Word.add_of_lt (by omega), Nat.add_comm]
      have hj : joinBefore df (front ++ [b]) = (front, joined b df) := by
        simp [joinBefore, isDataFragmentsMergable, hb.stop_eq, hm, Option.filter, hlen, joined]
      rw [hj]
      refine ⟨⟨List.sublist_append_left _ _, joined_ok hb.piece h.piece hm, ?_, ?_⟩, ?_, hap⟩
      · intro i
        have hi := mem_joined_range hb.1 hm i
        simp only [covered_append, covered_cons, covered_nil, Set.union_empty, Set.mem_union]
        grind
      · intro s hs hd
        exact joined_carries hb.piece h.piece hm (hs b (by simp)) hd
      · simp only [joined]
        omega
    · have hj : joinBefore df (front ++ [b]) = (front ++ [b], { df with data := df.bytes }) := by
        simp [joinBefore, isDataFragmentsMergable, hb.stop_eq, hm, Option.filter]
      rw [hj]
      refine ⟨Joined.copy h.piece _, rfl, ?_⟩
      intro f hf
      rcases List.mem_append.mp hf with hf | hf
      · have h₁ := hap f hf
        unfold Apart
        dsimp only
        omega
      · obtain rfl := List.mem_singleton.mp hf
        unfold Apart
        dsimp only
        omega

theorem joinAfter_spec {df : DataFragment} {back : List DataFragment} (hdf : df.Ok)
    (hback : FragmentsOk back) (hle : ∀ f ∈ back, df.offset + df.len ≤ f.offset) :
    Joined df (joinAfter df back).1 back (joinAfter df back).2 ∧
      (joinAfter df back).1.offset = df.offset ∧
      ∀ f ∈ (joinAfter df back).2, Apart (joinAfter df back).1 f := by
  have hid : Joined df df back back :=
    ⟨List.Sublist.refl _, hdf, fun i => Iff.rfl, fun s _ hs => hs⟩
  cases back with
  | nil => exact ⟨hid, rfl, by simp [joinAfter]⟩
  | cons a back =>
    obtain ⟨ha, -, hap⟩ := fragmentsOk_cons.mp hback
    have hale := hle a (by simp)
    by_cases hm : df.offset + df.len = a.offset
    · have hlen : add 32 df.len a.len = df.len + a.len := by
        have := ha.2.1
        exact Word.add_of_lt (by omega)
      have hj : joinAfter df (a :: back) = (joined df a, back) := by
        have hbytes : df.bytes = df.data := List.take_of_length_le hdf.2.2.le
        simp [joinAfter, isDataFragmentsMergable, hdf.stop_eq, hm, Option.filter, hlen, joined,
          hbytes]
      rw [hj]
      refine ⟨⟨List.sublist_cons_self _ _, joined_ok hdf.piece ha.piece hm, ?_, ?_⟩, rfl, ?_⟩
      · intro i
        have hi := mem_joined_range hdf.1 hm i
        simp only [covered_cons, Set.mem_union]
        grind
      · intro s hs hd
        exact joined_carries hdf.piece ha.piece hm hd (hs a (by simp))
      · intro f hf
        have h₁ := hap f hf
        unfold Apart at h₁ ⊢
        simp only [joined]
        omega
    · have hj : joinAfter df (a :: back) = (df, a :: back) := by
        simp [joinAfter, isDataFragmentsMergable, hdf.stop_eq, hm, Option.filter]
      rw [hj]
      refine ⟨hid, rfl, ?_⟩
      intro f hf
      rcases List.mem_cons.mp hf with rfl | hf
      · unfold Apart
        dsimp only
        omega
      · have h₁ := hap f hf
        unfold Apart at h₁ ⊢
        dsimp only
        omega

theorem dataFragmentsMerge_spec {df : DataFragment} {front back : List DataFragment}
    (h : Fits df front back) :
    ∃ l, dataFragmentsMerge true df front back = some l ∧ FragmentsOk l ∧
      covered l = df.range ∪ covered (front ++ back) ∧
      ∀ s, (∀ f ∈ front ++ back, f.Carries s) → df.Carries s → ∀ f ∈ l, f.Carries s := by
  obtain ⟨hj, hend, hap⟩ := joinBefore_spec h
  set t := (joinBefore df front).2
  set front' := (joinBefore df front).1
  have hstop : t.stop = df.stop := by rw [hj.ok.stop_eq, h.piece.stop_eq, hend]
  obtain ⟨hfront, hback, hfb⟩ := fragmentsOk_append.mp h.ok
  obtain ⟨hj', hoff', hap'⟩ := joinAfter_spec hj.ok hback (fun f hf => hend ▸ h.back_le f hf)
  set u := (joinAfter t back).1
  set back' := (joinAfter t back).2
  refine ⟨front' ++ u :: back', dataFragmentsMerge_eq hstop, ?_, ?_, ?_⟩
  · rw [fragmentsOk_append, fragmentsOk_cons]
    refine ⟨hfront.sublist hj.sublist, ⟨hj'.ok, hback.sublist hj'.sublist, hap'⟩, ?_⟩
    intro f hf b hb
    rcases List.mem_cons.mp hb with rfl | hb
    · have := hap f hf
      unfold Apart at this ⊢
      omega
    · exact hfb f (hj.sublist.subset hf) b (hj'.sublist.subset hb)
  · ext i
    have h₁ := hj.cover i
    have h₂ := hj'.cover i
    simp only [covered_append, covered_cons, Set.mem_union]
    grind
  · intro s hs hd f hf
    rcases List.mem_append.mp hf with hf | hf
    · exact hs f (by simp [hj.sublist.subset hf])
    · rcases List.mem_cons.mp hf with rfl | hf
      · exact hj'.carries s (fun g hg => hs g (by simp [hg]))
          (hj.carries s (fun g hg => hs g (by simp [hg])) hd)
      · exact hs f (by simp [hj'.sublist.subset hf])

theorem around_of_miss {df : DataFragment} {l : List DataFragment} (hl : FragmentsOk l)
    (hdf : df.Piece)
    (hmiss : ∀ f ∈ l, dataFragmentCovered f df = false ∧ dataFragmentCovered df f = false) :
    Around df (dataFragmentNeighborsGet df l).1 (dataFragmentNeighborsGet df l).2 := by
  have happ := neighborsGet_append df l
  have hmem : ∀ f, f ∈ (dataFragmentNeighborsGet df l).1 ∨ f ∈ (dataFragmentNeighborsGet df l).2 →
      f ∈ l := by
    intro f hf
    rw [← happ]
    exact List.mem_append.mpr hf
  have hcov : ∀ f ∈ l, (f.offset < df.offset ∨ df.offset + df.len < f.offset + f.len) ∧
      (df.offset < f.offset ∨ f.offset + f.len < df.offset + df.len) := by
    intro f hf
    obtain ⟨h₁, h₂⟩ := hmiss f hf
    simp only [dataFragmentCovered, (hl.1 f hf).stop_eq, hdf.stop_eq, Bool.and_eq_false_iff,
      decide_eq_false_iff_not, not_le] at h₁ h₂
    exact ⟨h₁, h₂⟩
  refine ⟨happ.symm ▸ hl, hdf, ?_, ?_⟩
  · intro f hf
    have h₁ := neighborsGet_front df l f hf
    have h₂ := hcov f (hmem f (Or.inl hf))
    omega
  · intro f hf
    have h₁ := neighborsGet_back hl f hf
    have h₂ := hcov f (hmem f (Or.inr hf))
    omega

theorem assembleFragmentPush_spec {l : List DataFragment} {data : List UInt8} {dlen offset : ℕ}
    (hl : FragmentsOk l) (hpos : 0 < dlen) (hbound : offset + dlen < 2 ^ 32)
    (hdata : dlen ≤ data.length) :
    (assembleFragmentPush true l data dlen offset).2 = true ∧
      FragmentsOk (assembleFragmentPush true l data dlen offset).1 ∧
      covered (assembleFragmentPush true l data dlen offset).1 =
        covered l ∪ Set.Ico offset (offset + dlen) ∧
      ∀ s, (∀ f ∈ l, f.Carries s) → data.take dlen = slice s offset (offset + dlen) →
        ∀ f ∈ (assembleFragmentPush true l data dlen offset).1, f.Carries s := by
  set df : DataFragment := { data := data, len := dlen, offset := offset } with hdf
  have hpiece : df.Piece := ⟨hpos, hbound, hdata⟩
  have hsub := coveredFree_sublist df l
  have hcov := coveredFree_covered hl (show df.offset + df.len < 2 ^ 32 from hbound)
  have hok := hl.sublist hsub
  have hrange : df.range = Set.Ico offset (offset + dlen) := rfl
  cases hc : (dataFragmentCoveredFree df l).2 with
  | true =>
    have hpush : assembleFragmentPush true l data dlen offset =
        ((dataFragmentCoveredFree df l).1, true) := by
      simp [assembleFragmentPush, ← hdf, hc]
    rw [hpush]
    refine ⟨rfl, hok, ?_, fun s hs _ f hf => hs f (hsub.subset hf)⟩
    obtain ⟨f, hf, hfc⟩ := coveredFree_hit df l hc
    have hin : df.range ⊆ covered (dataFragmentCoveredFree df l).1 := by
      have hfok := hok.1 f hf
      simp only [dataFragmentCovered, hfok.stop_eq, hpiece.stop_eq, Bool.and_eq_true,
        decide_eq_true_eq] at hfc
      intro i hi
      refine ⟨f, hf, ?_⟩
      rw [DataFragment.mem_range] at hi ⊢
      omega
    rw [← hrange, ← hcov]
    exact (Set.union_eq_self_of_subset_right hin).symm
  | false =>
    have haround := around_of_miss hok hpiece (coveredFree_miss df l hc)
    obtain ⟨hfits, -, htrim, hcarry⟩ := dataFragmentTrim_spec haround
    obtain ⟨m, hm, hmok, hmcov, hmcarry⟩ := dataFragmentsMerge_spec hfits
    rw [neighborsGet_append] at htrim hmcov
    have hpush : assembleFragmentPush true l data dlen offset = (m, true) := by
      simp only [assembleFragmentPush, ← hdf, hc, hm]
      simp [hfits.piece.1.ne']
    rw [hpush]
    refine ⟨rfl, hmok, ?_, ?_⟩
    · rw [hmcov, htrim, Set.union_comm, hcov, hrange]
    · intro s hs hd
      apply hmcarry s
      · intro f hf
        rw [neighborsGet_append] at hf
        exact hs f (hsub.subset hf)
      · exact hcarry s hd

theorem dataFragmentsCoveredFree_spec {l : List DataFragment} (hl : FragmentsOk l) (n : ℕ) :
    FragmentsOk (dataFragmentsCoveredFree n l) ∧
      (∀ f ∈ dataFragmentsCoveredFree n l, n ≤ f.offset) ∧
      Set.Iio n ∪ covered (dataFragmentsCoveredFree n l) = Set.Iio n ∪ covered l ∧
      ∀ s, (∀ f ∈ l, f.Carries s) → ∀ f ∈ dataFragmentsCoveredFree n l, f.Carries s := by
  induction l with
  | nil => simp [dataFragmentsCoveredFree, FragmentsOk.nil]
  | cons df rest ih =>
    obtain ⟨hdf, hrest, hap⟩ := fragmentsOk_cons.mp hl
    have hstop := hdf.stop_eq
    have hpos := hdf.1
    have hbound := hdf.2.1
    by_cases hall : df.offset + df.len ≤ n
    · -- the fragment lies below the delivered prefix
      have hfree : dataFragmentsCoveredFree n (df :: rest) = dataFragmentsCoveredFree n rest := by
        simp [dataFragmentsCoveredFree, isCoveredAll, hstop, hall]
      obtain ⟨hok, hle, hcov, hcarry⟩ := ih hrest
      rw [hfree]
      refine ⟨hok, hle, ?_, fun s hs => hcarry s (fun f hf => hs f (List.mem_cons_of_mem _ hf))⟩
      rw [hcov]
      ext i
      simp only [covered_cons, Set.mem_union, Set.mem_Iio, DataFragment.mem_range]
      have hi : df.offset ≤ i ∧ i < df.offset + df.len → i < n := by omega
      grind
    · have hlt : ∀ f ∈ rest, n ≤ f.offset := by
        intro f hf
        have h₁ := hap f hf
        unfold Apart at h₁
        omega
      by_cases hpart : df.offset < n
      · -- the prefix ends inside the fragment, which is cut there
        have hdiff : sub 32 n df.offset = n - df.offset := Word.sub_of_le (by omega) hpart.le
        have hlen : sub 32 df.len (n - df.offset) = df.len - (n - df.offset) :=
          Word.sub_of_le (by omega) (by omega)
        have hoff : add 32 df.offset (n - df.offset) = n := by
          rw [Word.add_of_lt (by omega)]
          omega
        set cut : DataFragment :=
          { data := df.data.drop (n - df.offset), len := df.len - (n - df.offset), offset := n }
          with hcut
        have hfree : dataFragmentsCoveredFree n (df :: rest) = cut :: rest := by
          simp [dataFragmentsCoveredFree, isCoveredAll, isCoveredPartial, hstop, hall, hpart,
            hdiff, hlen, hoff, hcut]
        have hend : cut.offset + cut.len = df.offset + df.len := by
          simp only [hcut]
          omega
        rw [hfree]
        refine ⟨fragmentsOk_cons.mpr ⟨⟨?_, ?_, ?_⟩, hrest, ?_⟩, ?_, ?_, ?_⟩
        · simp only [hcut]
          omega
        · omega
        · have := hdf.2.2
          simp only [hcut, List.length_drop]
          omega
        · intro f hf
          have h₁ := hap f hf
          unfold Apart at h₁ ⊢
          omega
        · intro f hf
          rcases List.mem_cons.mp hf with rfl | hf
          · exact le_rfl
          · exact hlt f hf
        · ext i
          have hi : i < n ∨ i ∈ cut.range ↔ i < n ∨ i ∈ df.range := by
            have hcutoff : cut.offset = n := rfl
            simp only [DataFragment.mem_range]
            omega
          simp only [covered_cons, Set.mem_union, Set.mem_Iio]
          grind
        · intro s hs f hf
          rcases List.mem_cons.mp hf with rfl | hf
          · have h₁ := hs df (by simp)
            have hsum : df.offset + (n - df.offset) = n := by omega
            unfold DataFragment.Carries DataFragment.bytes at h₁ ⊢
            rw [hend]
            simp only [hcut]
            rw [← List.drop_take, h₁, drop_slice, hsum]
          · exact hs f (List.mem_cons_of_mem _ hf)
      · have hfree : dataFragmentsCoveredFree n (df :: rest) = df :: rest := by
          simp [dataFragmentsCoveredFree, isCoveredAll, isCoveredPartial, hstop, hall, hpart]
        rw [hfree]
        refine ⟨hl, ?_, rfl, fun s hs => hs⟩
        intro f hf
        rcases List.mem_cons.mp hf with rfl | hf
        · omega
        · exact hlt f hf

theorem assembleFragmentPop_spec {l : List DataFragment} (hl : FragmentsOk l) (n : ℕ) :
    FragmentsOk (assembleFragmentPop l n).2 ∧
      (∀ s, (∀ f ∈ l, f.Carries s) → ∀ f ∈ (assembleFragmentPop l n).2, f.Carries s) ∧
      match (assembleFragmentPop l n).1 with
      | none => (∀ f ∈ (assembleFragmentPop l n).2, n < f.offset) ∧
          Set.Iio n ∪ covered (assembleFragmentPop l n).2 = Set.Iio n ∪ covered l
      | some df => df.Ok ∧ df.offset = n ∧ (∀ s, (∀ f ∈ l, f.Carries s) → df.Carries s) ∧
          (∀ f ∈ (assembleFragmentPop l n).2, n + df.len < f.offset) ∧
          Set.Iio (n + df.len) ∪ covered (assembleFragmentPop l n).2 =
            Set.Iio n ∪ covered l := by
  obtain ⟨hok, hle, hcov, hcarry⟩ := dataFragmentsCoveredFree_spec hl n
  cases hr : dataFragmentsCoveredFree n l with
  | nil =>
    have hpop : assembleFragmentPop l n = (none, []) := by simp [assembleFragmentPop, hr]
    rw [hpop]
    rw [hr] at hcov
    exact ⟨FragmentsOk.nil, by simp, by simp, hcov⟩
  | cons df rest =>
    rw [hr] at hok hle hcov hcarry
    obtain ⟨hdf, hrest, hap⟩ := fragmentsOk_cons.mp hok
    have hdfle := hle df (by simp)
    by_cases hn : n = df.offset
    · have hpop : assembleFragmentPop l n = (some df, rest) := by
        simp only [assembleFragmentPop, hr]
        rw [if_pos hn]
      rw [hpop]
      refine ⟨hrest, fun s hs f hf => hcarry s hs f (List.mem_cons_of_mem _ hf), hdf, hn.symm,
        fun s hs => hcarry s hs df (by simp), ?_, ?_⟩
      · intro f hf
        have h₁ := hap f hf
        unfold Apart at h₁
        omega
      · rw [← hcov]
        ext i
        have hi : i < n + df.len ↔ i < n ∨ i ∈ df.range := by
          rw [DataFragment.mem_range]
          omega
        simp only [covered_cons, Set.mem_union, Set.mem_Iio]
        grind
    · have hpop : assembleFragmentPop l n = (none, df :: rest) := by
        simp [assembleFragmentPop, hr, hn]
      rw [hpop]
      refine ⟨hok, hcarry, ?_, hcov⟩
      intro f hf
      rcases List.mem_cons.mp hf with rfl | hf
      · omega
      · have h₁ := hap f hf
        unfold Apart at h₁
        omega

end CloudHands.Tcp
