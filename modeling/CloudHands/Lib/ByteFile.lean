import CloudHands.Lib.BigEndian
import Mathlib.Data.List.GetD
import Mathlib.Tactic

/-!
# Files as byte arrays

A write at an offset extends the file as far as its bytes reach, with zeros in front of them
when it begins behind the end; a write of no bytes leaves the file alone. A file is known by
its length and the bytes at its positions.
-/

namespace CloudHands.Lib

def writeAt (file : List UInt8) (offset : ℕ) (data : List UInt8) : List UInt8 :=
  if data = [] then file
  else overwrite (file ++ List.replicate (offset - file.length) 0) offset data

theorem length_writeAt {file data : List UInt8} {offset : ℕ} (h : data ≠ []) :
    (writeAt file offset data).length = max file.length (offset + data.length) := by
  rw [writeAt, if_neg h]
  simp only [overwrite, List.length_append, List.length_take, List.length_drop,
    List.length_replicate]
  omega

theorem getD_writeAt {file data : List UInt8} {offset : ℕ} (h : data ≠ []) (i : ℕ) :
    (writeAt file offset data).getD i 0 =
      if offset ≤ i ∧ i < offset + data.length then data.getD (i - offset) 0
      else file.getD i 0 := by
  have hpad : ∀ j, (file ++ List.replicate (offset - file.length) 0).getD j 0 = file.getD j 0 := by
    intro j
    by_cases hj : j < file.length
    · exact List.getD_append _ _ _ _ hj
    · rw [List.getD_append_right _ _ _ _ (not_lt.1 hj), List.getD_eq_default _ _ (not_lt.1 hj)]
      simp only [List.getD_eq_getElem?_getD, List.getElem?_replicate]
      split <;> rfl
  have htake : ((file ++ List.replicate (offset - file.length) 0).take offset).length = offset := by
    simp only [List.length_take, List.length_append, List.length_replicate]
    omega
  rw [writeAt, if_neg h, overwrite]
  by_cases hbefore : i < offset
  · rw [if_neg (by omega), List.append_assoc, List.getD_append _ _ _ _ (by omega), ← hpad i]
    simp only [List.getD_eq_getElem?_getD, List.getElem?_take, if_pos hbefore]
  by_cases hinside : i < offset + data.length
  · have hlen :
        i < ((file ++ List.replicate (offset - file.length) 0).take offset ++ data).length := by
      rw [List.length_append, htake]
      exact hinside
    rw [if_pos ⟨not_lt.1 hbefore, hinside⟩, List.getD_append _ _ _ _ hlen,
      List.getD_append_right _ _ _ _ (by omega), htake]
  · have hlen : ((file ++ List.replicate (offset - file.length) 0).take offset ++ data).length =
        offset + data.length := by
      rw [List.length_append, htake]
    rw [if_neg (by omega), List.getD_append_right _ _ _ _ (by omega), hlen, ← hpad i]
    simp only [List.getD_eq_getElem?_getD, List.getElem?_drop]
    congr 2
    omega

theorem eq_of_getD {file file' : List UInt8} (hlen : file.length = file'.length)
    (h : ∀ i < file.length, file.getD i 0 = file'.getD i 0) : file = file' := by
  apply List.ext_getElem hlen
  intro i hi hi'
  simpa [List.getD_eq_getElem?_getD, hi, hi'] using h i hi

end CloudHands.Lib
