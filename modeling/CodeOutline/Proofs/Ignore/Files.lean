import CodeOutline.Ignore.Rule
import CodeOutline.Proofs.Text.Lines

/-! # Lines in ignore files

An ignore file is cut into lines as bytes, and each line is decoded on its own.  So lines that are written
one by one are read back (`ofContent_fileOf`) unless they have a line feed inside or a return at the end,
which are taken for the end of a line, or a byte order mark at the front.
-/

namespace CodeOutline

namespace Text

theorem toList_loop (bytes : ByteArray) (i : Nat) (done : List UInt8) :
    ByteArray.toList.loop bytes i done = done.reverse ++ bytes.data.toList.drop i := by
  fun_induction ByteArray.toList.loop bytes i done with
  | case1 i done hlt ih =>
    have hlength : i < bytes.data.toList.length := by simpa using hlt
    have hget : bytes.get! i = bytes.data[i] := getElem!_pos bytes.data i hlt
    rw [ih, hget, List.drop_eq_getElem_cons hlength]
    simp
  | case2 i done hge =>
    rw [List.drop_eq_nil_of_le (by simpa using Nat.le_of_not_lt hge), List.append_nil]

theorem toList_bytes (bytes : ByteArray) : bytes.toList = bytes.data.toList := by
  rw [ByteArray.toList, toList_loop]
  rfl

/-- A byte below 128 is the only one of its character. -/
theorem toNat_eq_of_mem_utf8EncodeChar {c : Char} {byte : UInt8} (hbyte : byte.toNat < 128)
    (h : byte ∈ String.utf8EncodeChar c) : c.toNat = byte.toNat := by
  by_cases hc : c.val.toNat ≤ 127
  · simp only [String.utf8EncodeChar, if_pos hc, List.mem_singleton] at h
    rw [h, UInt8.toNat_ofNat', Nat.mod_eq_of_lt (by omega)]
    rfl
  · have := le_of_mem_utf8EncodeChar (by omega) h
    omega

end Text

namespace Rule

/-- The file with the given lines, each with a line feed at its end. -/
def fileOf (lines : List String) : ByteArray :=
  (String.ofList (lines.flatMap fun line => line.toList ++ ['\n'])).toUTF8

/-- A line that stands in a file as it is. -/
structure Writable (line : String) : Prop where
  newline : '\n' ∉ line.toList
  carriageReturn : line.toList.getLast? ≠ some '\r'
  mark : line.toList.head? ≠ some '\ufeff'

instance (line : String) : Decidable (Writable line) :=
  decidable_of_iff ('\n' ∉ line.toList ∧ line.toList.getLast? ≠ some '\r' ∧
    line.toList.head? ≠ some '\ufeff')
    ⟨fun ⟨hnewline, hreturn, hmark⟩ => ⟨hnewline, hreturn, hmark⟩,
      fun ⟨hnewline, hreturn, hmark⟩ => ⟨hnewline, hreturn, hmark⟩⟩

/-! ## Lines of bytes -/

theorem byteLines_of_ne {b : UInt8} (h : b ≠ 10) (line rest : List UInt8) :
    byteLines line (b :: rest) = byteLines (b :: line) rest :=
  if_neg h

theorem byteLines_append {bytes : List UInt8} (h : 10 ∉ bytes) (line rest : List UInt8) :
    byteLines line (bytes ++ rest) = byteLines (bytes.reverse ++ line) rest := by
  induction bytes generalizing line with
  | nil => rfl
  | cons b bytes ih =>
    obtain ⟨hb, hbytes⟩ : 10 ≠ b ∧ 10 ∉ bytes := by simpa using h
    rw [List.cons_append, byteLines_of_ne (Ne.symm hb), ih hbytes, List.reverse_cons, List.append_assoc]
    rfl

/-- A line is cut off at its line feed. -/
theorem byteLines_line {bytes : List UInt8} (h : 10 ∉ bytes) (hreturn : bytes.getLast? ≠ some 13)
    (rest : List UInt8) : byteLines [] (bytes ++ 10 :: rest) = bytes :: byteLines [] rest := by
  rw [byteLines_append h, List.append_nil, byteLines, if_pos rfl, List.reverse_reverse]
  intro front heq
  rw [← List.head?_reverse, heq] at hreturn
  exact hreturn rfl

section Bytes

variable {line : String} (h : Writable line)
include h

theorem Writable.newline_not_mem_bytes : 10 ∉ line.toUTF8.toList := by
  rw [Text.toList_bytes, Text.toUTF8_eq_flatMap, List.mem_flatMap]
  rintro ⟨c, hc, hbyte⟩
  have hcode := Text.toNat_eq_of_mem_utf8EncodeChar (by decide) hbyte
  obtain rfl : c = '\n' := Char.toNat_inj.mp hcode
  exact h.newline hc

theorem Writable.getLast?_bytes_ne_return : line.toUTF8.toList.getLast? ≠ some 13 := by
  rw [Text.toList_bytes, Text.toUTF8_eq_flatMap]
  intro hlast
  rcases List.eq_nil_or_concat line.toList with hnil | ⟨front, c, hline⟩
  · rw [hnil] at hlast
    cases hlast
  · -- The last byte belongs to the last character.
    rw [List.concat_eq_append] at hline
    have hsome : (String.utf8EncodeChar c).getLast?.isSome = true := by
      simp
    rw [hline, List.flatMap_append, List.flatMap_singleton, List.getLast?_append,
      Option.or_of_isSome hsome] at hlast
    have hcode := Text.toNat_eq_of_mem_utf8EncodeChar (by decide) (List.mem_of_getLast? hlast)
    obtain rfl : c = '\r' := Char.toNat_inj.mp hcode
    exact h.carriageReturn (by rw [hline, List.getLast?_concat])

end Bytes

/-! ## Files -/

theorem toList_fileOf (lines : List String) :
    (fileOf lines).toList = lines.flatMap fun line => line.toUTF8.toList ++ [10] := by
  simp only [fileOf, Text.toList_bytes, Text.toUTF8_eq_flatMap, String.toList_ofList, List.flatMap_assoc,
    List.flatMap_append, List.flatMap_singleton]
  rfl

theorem byteLines_fileOf {lines : List String} (h : ∀ line ∈ lines, Writable line) :
    byteLines [] (fileOf lines).toList = lines.map fun line => line.toUTF8.toList := by
  rw [toList_fileOf]
  induction lines with
  | nil => rfl
  | cons line lines ih =>
    obtain ⟨hline, hlines⟩ := List.forall_mem_cons.mp h
    rw [List.flatMap_cons, List.append_assoc, List.singleton_append,
      byteLines_line hline.newline_not_mem_bytes hline.getLast?_bytes_ne_return, ih hlines, List.map_cons]

theorem textLines_map_bytes (lines : List String) :
    textLines (lines.map fun line => line.toUTF8.toList) = lines := by
  induction lines with
  | nil => rfl
  | cons line lines ih =>
    have hbytes : ByteArray.mk line.toUTF8.toList.toArray = line.toUTF8 := by
      rw [Text.toList_bytes]
    rw [List.map_cons, textLines, hbytes, Text.fromUTF8?_toUTF8]
    exact congrArg _ ih

theorem dropMarks_eq_self {lines : List String} (h : ∀ line ∈ lines, Writable line) :
    dropMarks lines = lines := by
  cases lines with
  | nil => rfl
  | cons line lines =>
    have hmark := (h line List.mem_cons_self).mark
    rw [dropMarks]
    congr 1
    cases hline : line.toList with
    | nil => exact (String.toList_eq_nil_iff.mp hline).symm
    | cons c rest =>
      have hc : c ≠ '\ufeff' := by simpa [hline] using hmark
      rw [List.dropWhile_cons_of_neg (by simpa using hc), ← hline, String.ofList_toList]

/-- The rules of a file are those of the lines that were written to it. -/
theorem ofContent_fileOf {lines : List String} (h : ∀ line ∈ lines, Writable line) :
    ofContent (fileOf lines) = ofLines lines := by
  rw [ofContent, byteLines_fileOf h, textLines_map_bytes, dropMarks_eq_self h]

end Rule

end CodeOutline
