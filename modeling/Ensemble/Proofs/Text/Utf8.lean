import Ensemble.Text.Utf8

/-!
# Texts and their bytes

Cutting a text after the bytes of its first part gives back that part and
the rest (`splitAt?_append`). The bytes of a text are those of its
characters, one after the other (`encode_ofList`), and the byte of a line
end is in no other character (`newline_mem_encodeChar`). So texts without
line ends that are put together as lines can be told apart again by their
bytes (`splitOn_lines`).
-/

namespace Ensemble.Text

/-! ## Cuts -/

@[simp] theorem byteSize_append (before after : List Char) :
    byteSize (before ++ after) = byteSize before + byteSize after := by
  induction before with
  | nil => simp [byteSize]
  | cons c before ih =>
      simp only [List.cons_append, byteSize, ih]
      omega

theorem byteSize_toList (s : String) : byteSize s.toList = s.utf8ByteSize := by
  suffices hlist : ∀ cs : List Char, byteSize cs = (String.ofList cs).utf8ByteSize by
    rw [hlist, String.ofList_toList]
  intro cs
  induction cs with
  | nil => rfl
  | cons c cs ih => simp [byteSize, ih]

theorem splitAt?_append (before after : List Char) :
    splitAt? (before ++ after) (byteSize before) = some (before, after) := by
  induction before with
  | nil => simp [splitAt?, byteSize]
  | cons c before ih =>
      -- no character takes zero bytes, so the cut is not at the front
      obtain ⟨n, hn⟩ : ∃ n, byteSize (c :: before) = n + 1 := by
        have hpos := Char.utf8Size_pos c
        exact Nat.exists_eq_add_one.mpr (by rw [byteSize]; omega)
      have hsize : c.utf8Size + byteSize before = n + 1 := hn
      have hrest : n + 1 - c.utf8Size = byteSize before := by omega
      rw [hn, List.cons_append, splitAt?, if_pos (by omega), hrest, ih]
      rfl

theorem isBoundary_append (before after : List Char) :
    isBoundary (before ++ after) (byteSize before) = true := by
  rw [isBoundary, splitAt?_append]
  rfl

/-! ## Bytes -/

theorem toList_loop (bytes : ByteArray) (i : Nat) (acc : List UInt8) :
    ByteArray.toList.loop bytes i acc = acc.reverse ++ bytes.data.toList.drop i := by
  fun_induction ByteArray.toList.loop bytes i acc with
  | case1 i acc hlt ih =>
      have hlen : i < bytes.data.toList.length := hlt
      have hget : bytes.get! i = bytes.data.toList[i] := getElem!_pos bytes.data i hlt
      rw [ih, List.drop_eq_getElem_cons hlen, hget, List.reverse_cons, List.append_assoc]
      rfl
  | case2 i acc hge =>
      have hlen : bytes.data.toList.length ≤ i := Nat.le_of_not_lt hge
      rw [List.drop_eq_nil_of_le hlen, List.append_nil]

theorem encode_eq_toList (s : String) : encode s = s.toByteArray.data.toList := by
  rw [encode, ByteArray.toList, toList_loop]
  rfl

theorem encode_ofList (cs : List Char) :
    encode (String.ofList cs) = cs.flatMap String.utf8EncodeChar := by
  rw [encode_eq_toList]
  exact List.toList_data_toByteArray

theorem encode_inj {s t : String} : encode s = encode t ↔ s = t := by
  rw [encode_eq_toList, encode_eq_toList, Array.toList_inj, ← String.toByteArray_inj]
  exact ⟨ByteArray.ext, congrArg ByteArray.data⟩

/-! ## Lines -/

/-- The byte of a line end. -/
def newline : UInt8 := 10

theorem mod_of_newline {n : Nat} (h : newline = UInt8.ofNat n) : n % 256 = 10 := by
  rw [← UInt8.toNat_ofNat', ← h]
  rfl

theorem newline_mem_encodeChar {c : Char} (h : newline ∈ String.utf8EncodeChar c) : c = '\n' := by
  have hval : c.val.toNat = 10 := by
    revert h
    rw [String.utf8EncodeChar]
    generalize c.val.toNat = v
    split
    · intro h
      have hmod := mod_of_newline (List.mem_singleton.mp h)
      omega
    · -- all bytes of a longer character have the first bit set
      intro h
      exfalso
      split at h
      · simp only [List.mem_cons, List.not_mem_nil, or_false] at h
        rcases h with h | h <;> have hmod := mod_of_newline h <;> omega
      split at h
      · simp only [List.mem_cons, List.not_mem_nil, or_false] at h
        rcases h with h | h | h <;> have hmod := mod_of_newline h <;> omega
      · simp only [List.mem_cons, List.not_mem_nil, or_false] at h
        rcases h with h | h | h | h <;> have hmod := mod_of_newline h <;> omega
  exact Char.toNat_inj.mp hval

/-- The bytes of a text without line ends, as a line. -/
theorem encode_line {cs : List Char} (hcs : '\n' ∉ cs) :
    ∃ body, encode (String.ofList (cs ++ ['\n'])) = body ++ [newline] ∧ newline ∉ body := by
  refine ⟨encode (String.ofList cs), ?_, ?_⟩
  · rw [encode_ofList, encode_ofList, List.flatMap_append]
    rfl
  · rw [encode_ofList]
    intro hmem
    obtain ⟨c, hc, hbyte⟩ := List.mem_flatMap.mp hmem
    exact hcs (newline_mem_encodeChar hbyte ▸ hc)

/-- Lines that are sent one after the other are what stands between the line
ends. -/
theorem splitOn_lines {bodies : List (List UInt8)} (h : ∀ body ∈ bodies, newline ∉ body) :
    (bodies.flatMap fun body => body ++ [newline]).splitOn newline = bodies ++ [[]] := by
  induction bodies with
  | nil => rfl
  | cons body rest ih =>
      rw [List.flatMap_cons, List.append_assoc, List.singleton_append,
        List.splitOn_append_cons_self_of_not_mem (h body (List.mem_cons_self ..)),
        ih fun b hb => h b (List.mem_cons_of_mem _ hb), List.cons_append]

end Ensemble.Text
