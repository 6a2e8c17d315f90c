import A64Machine.Memory.Ram

/-!
Arrays of words with a block of them replaced.  Every write of a memory is such a replacement, and
a memory is characterised by what it holds at each address before and after.
-/

namespace A64Machine

/-- The words with `data` written from `start` on; what passes the end is dropped. -/
def splice (words : Array Word) (start : Nat) (data : List Word) : Array Word :=
  (overwrite words.toVector start data).toArray

@[simp] theorem splice_nil (words : Array Word) (start : Nat) : splice words start [] = words := by
  simp [splice, overwrite]

@[simp] theorem size_splice (words : Array Word) (start : Nat) (data : List Word) :
    (splice words start data).size = words.size := by
  simp [splice]

theorem getElem?_splice (words : Array Word) (start : Nat) (data : List Word) (i : Nat) :
    (splice words start data)[i]? =
      if start ≤ i ∧ i < start + data.length ∧ i < words.size then data[i - start]?
      else words[i]? := by
  by_cases hi : i < words.size
  · have hview := getElem_overwrite words.toVector start data i hi
    have hin : i < (splice words start data).size := by simpa using hi
    rw [Array.getElem?_eq_getElem hin, Array.getElem?_eq_getElem hi]
    simp only [splice, Vector.getElem_toArray, hview]
    by_cases hstart : start ≤ i
    · by_cases hend : i < start + data.length
      · have hplace : i - start < data.length := by omega
        simp [hstart, hend, hi, hplace]
      · have hplace : data.length ≤ i - start := by omega
        simp [hstart, hend, hplace]
    · simp [hstart]
  · have hout : (splice words start data).size ≤ i := by simpa using hi
    rw [Array.getElem?_eq_none hout, Array.getElem?_eq_none (by omega)]
    simp [hi]

/-- Outside the block nothing changes. -/
theorem getElem?_splice_of_disjoint {words : Array Word} {start : Nat} {data : List Word} {i : Nat}
    (hout : i < start ∨ start + data.length ≤ i) :
    (splice words start data)[i]? = words[i]? := by
  rw [getElem?_splice, if_neg]
  omega

theorem toList_splice {words : Array Word} {start : Nat} {data : List Word}
    (hin : start + data.length ≤ words.size) :
    (splice words start data).toList =
      words.toList.take start ++ data ++ words.toList.drop (start + data.length) := by
  apply List.ext_getElem?
  intro i
  rw [Array.getElem?_toList, getElem?_splice]
  have hlen : (words.toList.take start).length = start := by
    rw [List.length_take, Array.length_toList]
    omega
  have hblock : (words.toList.take start ++ data).length = start + data.length := by
    rw [List.length_append, hlen]
  by_cases hbefore : i < start
  · rw [if_neg (by omega), List.getElem?_append_left (by omega),
      List.getElem?_append_left (by omega), List.getElem?_take_of_lt hbefore]
    simp
  · by_cases hinside : i < start + data.length
    · rw [if_pos ⟨by omega, hinside, by omega⟩, List.getElem?_append_left (by omega),
        List.getElem?_append_right (by omega), hlen]
    · rw [if_neg (by omega), List.getElem?_append_right (by omega), hblock, List.getElem?_drop]
      have hplace : start + data.length + (i - (start + data.length)) = i := by omega
      simp [hplace]

/-- Two blocks one after the other are one block. -/
theorem splice_append (words : Array Word) (start : Nat) (data more : List Word) :
    splice (splice words start data) (start + data.length) more =
      splice words start (data ++ more) := by
  apply Array.ext_getElem?
  intro i
  rw [getElem?_splice, getElem?_splice, getElem?_splice, size_splice, List.length_append]
  by_cases hfirst : i < start + data.length
  · by_cases hin : start ≤ i ∧ i < words.size
    · have hplace : i - start < data.length := by omega
      rw [if_neg (by omega), if_pos (by omega), if_pos (by omega),
        List.getElem?_append_left hplace]
    · rw [if_neg (by omega), if_neg (by omega), if_neg (by omega)]
  · by_cases hin : i < start + data.length + more.length ∧ i < words.size
    · rw [if_pos (by omega), if_pos (by omega), List.getElem?_append_right (by omega),
        Nat.sub_sub]
    · rw [if_neg (by omega), if_neg (by omega), if_neg (by omega)]

/-- A block as long as the whole array takes its place. -/
theorem splice_zero {words : Array Word} {data : List Word} (hsize : data.length = words.size) :
    splice words 0 data = data.toArray := by
  apply Array.toList_inj.1
  rw [toList_splice (by omega)]
  simp [hsize]

def slice (words : Array Word) (start count : Nat) : List Word :=
  (words.extract start (start + count)).toList

theorem toList_slice (words : Array Word) (start count : Nat) :
    slice words start count = (words.toList.drop start).take count := by
  simp [slice]

theorem getElem?_slice (words : Array Word) (start count i : Nat) :
    (slice words start count)[i]? = if i < count then words[start + i]? else none := by
  rw [toList_slice, List.getElem?_take]
  simp

theorem length_slice {words : Array Word} {start count : Nat} (hin : start + count ≤ words.size) :
    (slice words start count).length = count := by
  rw [toList_slice]
  simp
  omega

end A64Machine
