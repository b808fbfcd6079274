import CodeOutline.Proofs.Json.Writing
import CodeOutline.Settings.Decode
import CodeOutline.Settings.Encode

/-! # Reading settings that have been written

A document that is written from settings is read as the same settings.  What is written is read piece by piece,
and every piece has an end that is told by the character behind it: a key ends before the blank or the
bracket behind it, and a value before the end of its line.  So all statements here have some further text behind
what is read, and a document is read back table by table and line by line.
-/

namespace CodeOutline.Toml

/-! ## Numbers -/

theorem foldl_digitsValue {digits : List Char} (h : ∀ c ∈ digits, c.isDigit = true) (n : Nat) :
    digits.foldl
      (fun n c => n * 10 +
        (if c.isDigit then c.toNat - '0'.toNat else c.toLower.toNat - 'a'.toNat + 10)) n =
      Nat.ofDigitChars 10 digits n := by
  induction digits generalizing n with
  | nil => simp
  | cons c digits ih =>
    obtain ⟨hc, hrest⟩ := List.forall_mem_cons.mp h
    rw [List.foldl_cons, Nat.ofDigitChars_cons, ih hrest, if_pos hc, Nat.mul_comm]

theorem digitsValue_toDigits (n : Nat) : digitsValue 10 (Nat.toDigits 10 n) = n := by
  obtain ⟨c, digits, htext, hdigits⟩ := Json.toDigits_eq_cons n
  rw [digitsValue, foldl_digitsValue (by rwa [htext]), Nat.ofDigitChars_ten_toDigits]

theorem readMoreDigits_append {digits : List Char} (h : ∀ c ∈ digits, c.isDigit = true)
    (rest : List Char) :
    readMoreDigits Char.isDigit (digits ++ '\n' :: rest) = some (digits, '\n' :: rest) := by
  induction digits with
  | nil => simp [readMoreDigits]
  | cons c digits ih =>
    obtain ⟨hc, hrest⟩ := List.forall_mem_cons.mp h
    have hline : c ≠ '_' := Text.ne_of_class hc rfl
    rw [List.cons_append, readMoreDigits.eq_def]
    split <;> simp_all

theorem readWhole_toDigits (n : Nat) (rest : List Char) :
    readWhole (Nat.toDigits 10 n ++ '\n' :: rest) = some (Nat.toDigits 10 n, '\n' :: rest) := by
  obtain ⟨c, digits, htext, hdigits⟩ := Json.toDigits_eq_cons n
  by_cases hc : c = '0'
  · subst hc
    obtain rfl := Json.eq_zero_of_toDigits htext
    rfl
  · rw [htext, List.cons_append, readWhole.eq_def]
    have hmore := readMoreDigits_append (List.forall_mem_cons.mp hdigits).2 rest
    split
    · simp_all
    · simp [readDigits, hdigits c, hmore]

/-- Behind a given number of digits there is another one, or the end of the line. -/
theorem of_readFixed {digits rest more : List Char} {count value : Nat} {c : Char}
    (hdigits : ∀ d ∈ digits, d.isDigit = true)
    (h : readFixed count (digits ++ '\n' :: rest) = some (value, c :: more)) :
    c.isDigit = true ∨ c = '\n' := by
  unfold readFixed at h
  dsimp only at h
  split at h
  · rename_i hall
    have hdrop : (digits ++ '\n' :: rest).drop count = c :: more := (Prod.mk.inj (Option.some.inj h)).2
    by_cases hcount : count ≤ digits.length
    · rw [List.drop_append_of_le_length hcount] at hdrop
      cases htail : digits.drop count with
      | nil =>
        rw [htail] at hdrop
        exact .inr (List.cons.inj hdrop).1.symm
      | cons d tail =>
        rw [htail] at hdrop
        have hmem : d ∈ digits.drop count := by rw [htail]; exact List.mem_cons_self
        exact .inl ((List.cons.inj hdrop).1 ▸ hdigits d (List.mem_of_mem_drop hmem))
    · -- The line ends before there are enough digits.
      have hline : '\n' ∈ (digits ++ '\n' :: rest).take count := by
        rw [List.take_append, List.mem_append]
        right
        obtain ⟨k, hk⟩ : ∃ k, count - digits.length = k + 1 := ⟨count - digits.length - 1, by omega⟩
        rw [hk]
        exact List.mem_cons_self
      simp only [Bool.and_eq_true, List.all_eq_true] at hall
      exact absurd (hall.2 _ hline) (by decide)
  · cases h

theorem startsDate_toDigits (n : Nat) (rest : List Char) :
    startsDate (Nat.toDigits 10 n ++ '\n' :: rest) = false := by
  obtain ⟨c, digits, htext, hdigits⟩ := Json.toDigits_eq_cons n
  unfold startsDate
  split
  · rename_i heq
    rcases of_readFixed (htext ▸ hdigits) heq with h | h <;> cases h
  · rfl

theorem startsTime_toDigits (n : Nat) (rest : List Char) :
    startsTime (Nat.toDigits 10 n ++ '\n' :: rest) = false := by
  obtain ⟨c, digits, htext, hdigits⟩ := Json.toDigits_eq_cons n
  unfold startsTime
  split
  · rename_i heq
    rcases of_readFixed (htext ▸ hdigits) heq with h | h <;> cases h
  · rfl

/-- A zero in front stands alone. -/
theorem eq_newline_of_toDigits {n : Nat} {d : Char} {rest more : List Char}
    (h : Nat.toDigits 10 n ++ '\n' :: rest = '0' :: d :: more) : d = '\n' := by
  obtain ⟨c, digits, htext, -⟩ := Json.toDigits_eq_cons n
  rw [htext, List.cons_append] at h
  obtain ⟨rfl, htail⟩ := List.cons.inj h
  obtain rfl := Json.eq_zero_of_toDigits htext
  obtain rfl : digits = [] := (List.cons.inj htext).2.symm
  exact (List.cons.inj htail).1.symm

theorem readUnsigned_toDigits {n : Nat} (hn : n ≤ Word.maxSigned64) (rest : List Char) :
    readUnsigned false (Nat.toDigits 10 n ++ '\n' :: rest) = some (.integer n, '\n' :: rest) := by
  have hlow : -(Word.maxSigned64 : Int) - 1 ≤ n := by omega
  have hhigh : (n : Int) ≤ Word.maxSigned64 := by omega
  have hinteger : integer64? n = some (.integer n) := by
    simp [integer64?, hlow, hhigh]
  simp [readUnsigned, readWhole_toDigits, digitsValue_toDigits, hinteger]

theorem readNumberOrMoment_toDigits {n : Nat} (hn : n ≤ Word.maxSigned64) (rest : List Char) :
    readNumberOrMoment (Nat.toDigits 10 n ++ '\n' :: rest) = some (.integer n, '\n' :: rest) := by
  have hunsigned := readUnsigned_toDigits hn rest
  obtain ⟨c, digits, htext, hdigits⟩ := Json.toDigits_eq_cons n
  have hhead : ∀ {d more}, Nat.toDigits 10 n ++ '\n' :: rest = d :: more → d.isDigit = true := by
    intro d more heq
    rw [htext, List.cons_append] at heq
    exact (List.cons.inj heq).1 ▸ hdigits c List.mem_cons_self
  rw [readNumberOrMoment, startsDate_toDigits, startsTime_toDigits]
  -- None of the marks that may stand in front of a number is a digit.
  simp only [Bool.false_eq_true, if_false]
  unfold readNumber
  split
  · exact absurd (eq_newline_of_toDigits ‹_›) (by decide)
  · exact absurd (eq_newline_of_toDigits ‹_›) (by decide)
  · exact absurd (eq_newline_of_toDigits ‹_›) (by decide)
  · exact absurd (hhead ‹_›) (by decide)
  · exact absurd (hhead ‹_›) (by decide)
  · unfold readSigned
    split
    · exact absurd (hhead ‹_›) (by decide)
    · exact absurd (hhead ‹_›) (by decide)
    · exact hunsigned

/-! ## Texts -/

/-- A text that can be written between quotes as it is. -/
def Plain (text : String) : Prop :=
  ∀ c ∈ text.toList, isPlain c = true ∧ c ≠ '"' ∧ c ≠ '\\'

instance (text : String) : Decidable (Plain text) :=
  decidable_of_iff (text.toList.all fun c => isPlain c && c != '"' && c != '\\') (by simp [Plain, and_assoc])

theorem readBasic_append {chars : List Char}
    (h : ∀ c ∈ chars, isPlain c = true ∧ c ≠ '"' ∧ c ≠ '\\') (rest : List Char) {n : Nat}
    (hn : chars.length < n) :
    readBasic n (chars ++ '"' :: rest) = some (chars, rest) := by
  induction chars generalizing n with
  | nil =>
    obtain ⟨k, rfl⟩ := Nat.exists_eq_add_of_lt hn
    simp [readBasic]
  | cons c chars ih =>
    obtain ⟨⟨hplain, hquote, hslash⟩, hrest⟩ := List.forall_mem_cons.mp h
    obtain ⟨k, rfl⟩ := Nat.exists_eq_succ_of_ne_zero (Nat.ne_zero_of_lt hn)
    have hmore := ih hrest (Nat.lt_of_succ_lt_succ hn)
    rw [List.cons_append, readBasic.eq_def]
    simp [hplain, hmore]

theorem toList_writeText (text : String) (rest : List Char) :
    (Setting.writeText text).toList ++ rest = '"' :: (text.toList ++ '"' :: rest) := by
  simp [Setting.writeText]

theorem readString_writeText {text : String} (h : Plain text) {rest : List Char}
    (hrest : rest.head? ≠ some '"') :
    readString ((Setting.writeText text).toList ++ rest) = some (text, rest) := by
  have hbasic := readBasic_append h rest (n := (text.toList ++ '"' :: rest).length + 1)
    (by rw [List.length_append]; omega)
  rw [toList_writeText]
  unfold readString
  split
  · -- Only two quotes stand one behind the other, those of the empty text.
    rename_i more heq
    have hinner := (List.cons.inj heq).2
    cases htext : text.toList with
    | nil =>
      rw [htext] at hinner
      exact absurd (by rw [(List.cons.inj hinner).2]; rfl) hrest
    | cons c chars =>
      rw [htext] at hinner
      have hc := h c (by rw [htext]; exact List.mem_cons_self)
      exact absurd (List.cons.inj hinner).1 hc.2.1
  · rename_i more heq
    cases heq
  · rw [readLineString, hbasic]
    exact congrArg (fun text => some (text, rest)) String.ofList_toList

theorem readValue_writeText (depth : Nat) {text : String} (h : Plain text) {rest : List Char}
    (hrest : rest.head? ≠ some '"') :
    readValue depth ((Setting.writeText text).toList ++ rest) = some (.string text, rest) := by
  have hread := readString_writeText h hrest
  rw [toList_writeText] at hread ⊢
  rw [readValue.eq_def]
  simp [hread]

/-! ## Arrays -/

theorem readValue_array {inner rest : List Char} {items : List Toml}
    (h : readElements (readValue (nestingLimit - 1)) (inner.length + 1) inner = some (items, rest)) :
    readValue nestingLimit ('[' :: inner) = some (.array items, rest) := by
  rw [readValue.eq_def]
  simp only [nestingLimit] at h ⊢
  simp [h]

theorem readElements_writeText (depth : Nat) {text : String} (h : Plain text) (rest : List Char) (n : Nat) :
    readElements (readValue depth) (n + 1) ((Setting.writeText text).toList ++ ']' :: rest) =
      some ([.string text], rest) := by
  have hread : readValue depth ((Setting.writeText text).toList ++ ']' :: rest) =
      some (.string text, ']' :: rest) :=
    readValue_writeText depth h (by simp)
  rw [toList_writeText] at hread ⊢
  have hstart : dropSpaces ('"' :: (text.toList ++ '"' :: ']' :: rest)) =
      some ('"' :: (text.toList ++ '"' :: ']' :: rest)) := rfl
  have hend : dropSpaces (']' :: rest) = some (']' :: rest) := rfl
  rw [readElements, hstart]
  simp [hread, hend]

theorem length_le_writeLines (values : List String) :
    values.length ≤ (Setting.writeLines values).toList.length := by
  induction values with
  | nil => exact Nat.zero_le _
  | cons text values ih =>
    simp only [Setting.writeLines, String.toList_append, List.length_append, List.length_cons]
    have hcomma : ",".toList.length = 1 := rfl
    omega

theorem readElements_writeLines (depth : Nat) {values : List String} (h : ∀ text ∈ values, Plain text)
    (rest : List Char) {n : Nat} (hn : values.length < n) :
    readElements (readValue depth) n ((Setting.writeLines values).toList ++ rest) =
      some (values.map .string, rest) := by
  induction values generalizing n with
  | nil =>
    obtain ⟨k, rfl⟩ := Nat.exists_eq_succ_of_ne_zero (Nat.ne_zero_of_lt hn)
    rfl
  | cons text values ih =>
    obtain ⟨hplain, hothers⟩ := List.forall_mem_cons.mp h
    obtain ⟨k, rfl⟩ := Nat.exists_eq_succ_of_ne_zero (Nat.ne_zero_of_lt hn)
    have hmore := ih hothers (Nat.lt_of_succ_lt_succ hn)
    -- The text and the comma behind it, and then the lines of the other texts.
    let others := ',' :: ((Setting.writeLines values).toList ++ rest)
    have hread : readValue depth ((Setting.writeText text).toList ++ others) = some (.string text, others) :=
      readValue_writeText depth hplain (by simp [others])
    have htext : (Setting.writeLines (text :: values)).toList ++ rest =
        '\n' :: ' ' :: ' ' :: ' ' :: ' ' :: ((Setting.writeText text).toList ++ others) := by
      simp [Setting.writeLines, others]
    rw [toList_writeText] at hread htext
    have hspaces : dropSpaces ('\n' :: ' ' :: ' ' :: ' ' :: ' ' :: '"' :: (text.toList ++ '"' :: others)) =
        some ('"' :: (text.toList ++ '"' :: others)) := rfl
    have hcomma : dropSpaces others = some others := rfl
    rw [htext, readElements, hspaces]
    simp [hread, hcomma, others, hmore]

/-! ## Keys -/

/-- A key that is written without quotes. -/
def Bare (key : String) : Prop :=
  key ≠ "" ∧ ∀ c ∈ key.toList, isKeyChar c = true

instance (key : String) : Decidable (Bare key) :=
  decidable_of_iff (key ≠ "" ∧ key.toList.all isKeyChar) (by simp [Bare])

theorem isGap_of_isKeyChar {c : Char} (h : isKeyChar c = true) : isGap c = false := by
  have hspace : c ≠ ' ' := Text.ne_of_class h rfl
  have htab : c ≠ '\t' := Text.ne_of_class h rfl
  simp [isGap, hspace, htab]

theorem Bare.exists_eq_cons {key : String} (h : Bare key) :
    ∃ c rest, key.toList = c :: rest ∧ isKeyChar c = true := by
  cases htext : key.toList with
  | nil => exact absurd (String.toList_eq_nil_iff.mp htext) h.1
  | cons c rest => exact ⟨c, rest, rfl, h.2 c (by rw [htext]; exact List.mem_cons_self)⟩

/-- A key ends where no dot is behind it. -/
theorem readKey_append {key : String} (h : Bare key) {c : Char} {rest : List Char}
    (hc : isKeyChar c = false) (hdot : (dropGap (c :: rest)).head? ≠ some '.') :
    readKey (key.toList ++ c :: rest) = some ([], key, dropGap (c :: rest)) := by
  obtain ⟨first, others, htext, hfirst⟩ := h.exists_eq_cons
  have hgap : dropGap (key.toList ++ c :: rest) = key.toList ++ c :: rest := by
    rw [htext]
    simp [dropGap, isGap_of_isKeyChar hfirst]
  have hpart : readKeyPart (key.toList ++ c :: rest) = some (key, c :: rest) := by
    have htake : (key.toList ++ c :: rest).takeWhile isKeyChar = key.toList := by
      rw [List.takeWhile_append_of_pos h.2, List.takeWhile_cons_of_neg (by simp [hc]), List.append_nil]
    have hdrop : (key.toList ++ c :: rest).dropWhile isKeyChar = c :: rest := by
      rw [List.dropWhile_append_of_pos h.2, List.dropWhile_cons_of_neg (by simp [hc])]
    have hquote : first ≠ '"' := Text.ne_of_class hfirst rfl
    have hsingle : first ≠ '\'' := Text.ne_of_class hfirst rfl
    unfold readKeyPart
    rw [htake, hdrop, String.ofList_toList, htext]
    simp [hquote, hsingle, hfirst]
  have hparts : readKeyParts nestingLimit (key.toList ++ c :: rest) = some ([key], dropGap (c :: rest)) := by
    rw [nestingLimit, readKeyParts, hgap, hpart]
    simp only [Option.bind_eq_bind, Option.bind_some]
    split
    · rename_i heq
      exact absurd (by rw [heq]; rfl) hdot
    · rfl
  rw [readKey, hparts]
  rfl

/-! ## Lines -/

/-- A line that starts with a key is no comment and not empty. -/
theorem readLines_of_readLine {draft after : Draft} {key : String} {behind rest : List Char} {n : Nat}
    (hkey : Bare key) (h : readLine draft (key.toList ++ behind) = some (after, rest)) :
    readLines (n + 1) draft (key.toList ++ behind) = readLines n after rest := by
  obtain ⟨c, others, htext, hc⟩ := hkey.exists_eq_cons
  rw [htext, List.cons_append] at h ⊢
  have hgap : dropGap (c :: (others ++ behind)) = c :: (others ++ behind) := by
    simp [dropGap, isGap_of_isKeyChar hc]
  have hcomment : c ≠ '#' := Text.ne_of_class hc rfl
  have hnewline : c ≠ '\n' := Text.ne_of_class hc rfl
  have hreturn : c ≠ '\r' := Text.ne_of_class hc rfl
  have hfull : dropNewline? (c :: (others ++ behind)) = none := by
    unfold dropNewline?
    split <;> simp_all
  rw [readLines, hgap]
  simp [hcomment, hfull, h]

/-- The line of an entry. -/
theorem readLines_entry {draft after : Draft} {key : String} {text : List Char} {value : Toml}
    {rest : List Char} {n : Nat} (hkey : Bare key) (htext : ∃ c more, text = c :: more ∧ isGap c = false)
    (hread : readValue nestingLimit (text ++ '\n' :: rest) = some (value, '\n' :: rest))
    (hadd : draft.add [] key value = some after) :
    readLines (n + 1) draft (key.toList ++ ' ' :: '=' :: ' ' :: (text ++ '\n' :: rest)) =
      readLines n after rest := by
  apply readLines_of_readLine hkey
  have hreadKey : readKey (key.toList ++ ' ' :: '=' :: ' ' :: (text ++ '\n' :: rest)) =
      some ([], key, '=' :: ' ' :: (text ++ '\n' :: rest)) :=
    readKey_append hkey rfl (show some '=' ≠ some '.' by decide)
  have hvalue : dropGap (' ' :: (text ++ '\n' :: rest)) = text ++ '\n' :: rest := by
    obtain ⟨c, more, rfl, hgap⟩ := htext
    rw [dropGap, List.dropWhile_cons_of_pos rfl, List.cons_append,
      List.dropWhile_cons_of_neg (by simp [hgap])]
  have hend : dropLineEnd? ('\n' :: rest) = some rest := rfl
  have hhead : ∀ more, key.toList ++ ' ' :: '=' :: ' ' :: (text ++ '\n' :: rest) ≠ '[' :: more := by
    obtain ⟨c, others, hchars, hc⟩ := hkey.exists_eq_cons
    intro more heq
    rw [hchars, List.cons_append] at heq
    exact Text.ne_of_class hc rfl (List.cons.inj heq).1
  unfold readLine
  split
  · exact absurd ‹_› (hhead _)
  · exact absurd ‹_› (hhead _)
  · simp [hreadKey, expect, hvalue, hread, hadd, hend]

/-- The line of a header. -/
theorem readLines_header {draft after : Draft} {name : String} {rest : List Char} {n : Nat}
    (hname : Bare name) (henter : draft.enter openTable [] name = some after) :
    readLines (n + 1) draft ('[' :: (name.toList ++ ']' :: '\n' :: rest)) = readLines n after rest := by
  have hreadKey : readKey (name.toList ++ ']' :: '\n' :: rest) = some ([], name, ']' :: '\n' :: rest) :=
    readKey_append hname rfl (show some ']' ≠ some '.' by decide)
  have hend : dropLineEnd? ('\n' :: rest) = some rest := rfl
  have hread : readLine draft ('[' :: (name.toList ++ ']' :: '\n' :: rest)) = some (after, rest) := by
    obtain ⟨c, others, hchars, hc⟩ := hname.exists_eq_cons
    have hbracket : c ≠ '[' := Text.ne_of_class hc rfl
    unfold readLine
    split
    · rename_i heq
      rw [hchars, List.cons_append] at heq
      exact absurd (List.cons.inj (List.cons.inj heq).2).1 hbracket
    · rename_i heq
      rw [← (List.cons.inj heq).2]
      simp [hreadKey, expect, henter, hend]
    · rename_i hother
      exact absurd rfl (hother _)
  have hgap : dropGap ('[' :: (name.toList ++ ']' :: '\n' :: rest)) =
      '[' :: (name.toList ++ ']' :: '\n' :: rest) := rfl
  have hfull : dropNewline? ('[' :: (name.toList ++ ']' :: '\n' :: rest)) = none := rfl
  rw [readLines, hgap]
  simp [hfull, hread]

/-! ## Tables -/

theorem Draft.enter_new {entries : List (String × Toml)} {here : List String} {name : String}
    (h : entries.lookup name = none) :
    Draft.enter ⟨.table .header entries, here⟩ openTable [] name =
      some ⟨.table .header (entries ++ [(name, .table .header [])]), [name]⟩ := by
  simp [Draft.enter, changeAt, openTable, h, emptyTable]

/-- A document that is being read, with entries for the table of its last header. -/
def Draft.within (front : List (String × Toml)) (name : String) (entries : List (String × Toml)) : Draft :=
  ⟨.table .header (front ++ [(name, .table .header entries)]), [name]⟩

theorem Draft.add_within {front entries : List (String × Toml)} {name key : String} (value : Toml)
    (hname : front.lookup name = none) (hkey : entries.lookup key = none) :
    (Draft.within front name entries).add [] key value =
      some (Draft.within front name (entries ++ [(key, value)])) := by
  have hlookup : (front ++ [(name, Toml.table .header entries)]).lookup name =
      some (.table .header entries) := by
    rw [List.lookup_append, hname]
    simp
  have hreplace : replaceEntry name (.table .header (entries ++ [(key, value)]))
      (front ++ [(name, .table .header entries)]) =
        front ++ [(name, .table .header (entries ++ [(key, value)]))] := by
    have hothers : ∀ entry ∈ front, entry.1 ≠ name := by
      intro entry hentry heq
      have hne := List.lookup_eq_none_iff.mp hname entry hentry
      simp [heq] at hne
    have hfront : (front.map fun entry =>
        if entry.1 = name then (name, Toml.table .header (entries ++ [(key, value)])) else entry) = front :=
      (List.map_congr_left fun entry hentry => if_neg (hothers entry hentry)).trans (List.map_id _)
    simp [replaceEntry, hfront]
  simp [Draft.within, Draft.add, changeAt, hlookup, Descent.header, addKey, addEntry, hkey, hreplace]

end CodeOutline.Toml

namespace CodeOutline

open Toml

/-! ## Settings -/

namespace Setting

def toToml : Setting → Toml
  | count value => .integer value
  | flag value => .bool value
  | text value => .string value
  | texts values => .array (values.map .string)

/-- A value that is written in a way that can be read. -/
def Writable : Setting → Prop
  | count value => value ≤ Word.maxSigned64
  | flag _ => True
  | text value => Plain value
  | texts values => ∀ value ∈ values, Plain value

/-- What is written for a value starts with a character that is no blank. -/
theorem exists_write_eq_cons (setting : Setting) :
    ∃ c rest, setting.write.toList = c :: rest ∧ isGap c = false := by
  cases setting with
  | count value =>
    obtain ⟨c, digits, htext, hdigits⟩ := Json.toDigits_eq_cons value
    refine ⟨c, digits, ?_, ?_⟩
    · rw [← htext]
      exact String.toList_ofList
    · have hc := hdigits c List.mem_cons_self
      have hspace : c ≠ ' ' := Text.ne_of_class hc rfl
      have htab : c ≠ '\t' := Text.ne_of_class hc rfl
      simp [isGap, hspace, htab]
  | flag value => cases value <;> exact ⟨_, _, rfl, rfl⟩
  | text value => exact ⟨'"', value.toList ++ ['"'], by simp [write, writeText], rfl⟩
  | texts values =>
    match values with
    | [] => exact ⟨'[', [']'], rfl, rfl⟩
    | [value] => exact ⟨'[', (writeText value).toList ++ [']'], by simp [write], rfl⟩
    | first :: second :: others =>
      exact ⟨'[', (writeLines (first :: second :: others)).toList, by simp [write], rfl⟩

theorem readValue_write {setting : Setting} (h : setting.Writable) (rest : List Char) :
    readValue nestingLimit (setting.write.toList ++ '\n' :: rest) = some (setting.toToml, '\n' :: rest) := by
  cases setting with
  | count value =>
    have hread := readNumberOrMoment_toDigits h rest
    obtain ⟨c, digits, htext, hdigits⟩ := Json.toDigits_eq_cons value
    have hwrite : (count value).write.toList = Nat.toDigits 10 value := String.toList_ofList
    have hc := hdigits c List.mem_cons_self
    rw [hwrite]
    rw [htext, List.cons_append] at hread ⊢
    -- No other kind of value starts with a digit.
    have hquote : c ≠ '"' := Text.ne_of_class hc rfl
    have hsingle : c ≠ '\'' := Text.ne_of_class hc rfl
    have hbracket : c ≠ '[' := Text.ne_of_class hc rfl
    have hbrace : c ≠ '\x7b' := Text.ne_of_class hc rfl
    rw [readValue.eq_def]
    simp only [hquote, hsingle, hbracket, hbrace, decide_false, Bool.or_false, Bool.false_eq_true, if_false]
    split
    · rename_i heq
      exact absurd (List.cons.inj heq).1 (Text.ne_of_class hc rfl)
    · rename_i heq
      exact absurd (List.cons.inj heq).1 (Text.ne_of_class hc rfl)
    · exact hread
  | flag value => cases value <;> rfl
  | text value => exact readValue_writeText nestingLimit h (by simp)
  | texts values =>
    match values with
    | [] => rfl
    | [value] =>
      have hinner : (texts [value]).write.toList ++ '\n' :: rest =
          '[' :: ((writeText value).toList ++ ']' :: '\n' :: rest) := by
        simp [write]
      rw [hinner]
      exact readValue_array (readElements_writeText _ (h value List.mem_cons_self) _ _)
    | first :: second :: others =>
      have hinner : (texts (first :: second :: others)).write.toList ++ '\n' :: rest =
          '[' :: ((writeLines (first :: second :: others)).toList ++ '\n' :: rest) := by
        simp [write]
      rw [hinner]
      refine readValue_array (readElements_writeLines _ h _ ?_)
      have hlines := length_le_writeLines (first :: second :: others)
      rw [List.length_append]
      omega

/-! ## Documents -/

def tomlEntries (entries : List (String × Setting)) : List (String × Toml) :=
  entries.map fun entry => (entry.1, entry.2.toToml)

theorem lookup_eq_none_of_nodup {done : List (String × Toml)} {key : String} {keys : List String}
    (h : (done.map Prod.fst ++ key :: keys).Nodup) : done.lookup key = none := by
  rw [List.lookup_eq_none_iff]
  intro entry hentry
  rw [bne_iff_ne]
  exact ((List.nodup_append.mp h).2.2 _ (List.mem_map_of_mem hentry) _ List.mem_cons_self).symm

/-- The lines of a table are read one by one, and there are at least as many rounds left as characters. -/
theorem readLines_writeEntries {front : List (String × Toml)} (done : List (String × Toml)) {name : String}
    {entries : List (String × Setting)} {rest : List Char} {n : Nat}
    (hname : front.lookup name = none) (hentries : ∀ entry ∈ entries, Bare entry.1 ∧ entry.2.Writable)
    (hkeys : (done.map Prod.fst ++ entries.map Prod.fst).Nodup)
    (hn : (writeEntries entries).toList.length + rest.length < n) :
    ∃ m, rest.length < m ∧
      readLines n (Draft.within front name done) ((writeEntries entries).toList ++ rest) =
        readLines m (Draft.within front name (done ++ tomlEntries entries)) rest := by
  induction entries generalizing done n with
  | nil => exact ⟨n, by simpa [writeEntries] using hn, by simp [writeEntries, tomlEntries]⟩
  | cons entry entries ih =>
    obtain ⟨key, setting⟩ := entry
    obtain ⟨⟨hkey, hsetting⟩, hothers⟩ := List.forall_mem_cons.mp hentries
    obtain ⟨k, rfl⟩ := Nat.exists_eq_succ_of_ne_zero (Nat.ne_zero_of_lt hn)
    have hnew : done.lookup key = none := lookup_eq_none_of_nodup hkeys
    have htext : (writeEntries ((key, setting) :: entries)).toList ++ rest =
        key.toList ++ ' ' :: '=' :: ' ' :: (setting.write.toList ++ '\n' ::
          ((writeEntries entries).toList ++ rest)) := by
      simp [writeEntries]
    rw [htext, readLines_entry hkey setting.exists_write_eq_cons (readValue_write hsetting _)
      (Draft.add_within setting.toToml hname hnew)]
    have hshorter : (writeEntries entries).toList.length + rest.length < k := by
      have hlength := congrArg List.length htext
      simp only [List.length_append, List.length_cons] at hlength hn
      omega
    obtain ⟨m, hm, hread⟩ := ih (done ++ [(key, setting.toToml)]) hothers (by simpa using hkeys)
      hshorter
    exact ⟨m, hm, by rw [hread]; simp [tomlEntries]⟩

theorem readLines_nil {draft : Draft} {n : Nat} (hn : 0 < n) : readLines n draft [] = some draft := by
  obtain ⟨k, rfl⟩ := Nat.exists_eq_succ_of_ne_zero (Nat.ne_zero_of_lt hn)
  rfl

/-- A table that can be written: its names are keys without quotes, none of them twice. -/
def WritableTable (table : String × List (String × Setting)) : Prop :=
  Bare table.1 ∧ (∀ entry ∈ table.2, Bare entry.1 ∧ entry.2.Writable) ∧ (table.2.map Prod.fst).Nodup

theorem readLines_table {done : List (String × Toml)} {here : List String} {name : String}
    {entries : List (String × Setting)} {text : List Char} (rest : List Char) {n : Nat}
    (htable : WritableTable (name, entries)) (hname : done.lookup name = none)
    (htext : text = '[' :: (name.toList ++ ']' :: '\n' :: ((writeEntries entries).toList ++ rest)))
    (hn : text.length < n) :
    ∃ m, rest.length < m ∧
      readLines n ⟨.table .header done, here⟩ text =
        readLines m (Draft.within done name (tomlEntries entries)) rest := by
  obtain ⟨hbare, hentries, hkeys⟩ := htable
  obtain ⟨k, rfl⟩ := Nat.exists_eq_succ_of_ne_zero (Nat.ne_zero_of_lt hn)
  have hshorter : (writeEntries entries).toList.length + rest.length < k := by
    have hlength := congrArg List.length htext
    simp only [List.length_append, List.length_cons] at hlength
    omega
  rw [htext, readLines_header hbare (Draft.enter_new hname)]
  exact readLines_writeEntries [] hname hentries (by simpa using hkeys) hshorter

/-- Tables are read as tables. -/
theorem readLines_writeTables {tables : List (String × List (String × Setting))}
    (done : List (String × Toml)) (here : List String) {n : Nat}
    (htables : ∀ table ∈ tables, WritableTable table)
    (hnames : (done.map Prod.fst ++ tables.map Prod.fst).Nodup) (hn : (writeTables tables).toList.length < n) :
    ∃ draft, readLines n ⟨.table .header done, here⟩ (writeTables tables).toList = some draft ∧
      draft.root = .table .header
        (done ++ tables.map fun table => (table.1, .table .header (tomlEntries table.2))) := by
  fun_induction writeTables tables generalizing done here n with
  | case1 => exact ⟨_, readLines_nil (Nat.zero_lt_of_lt hn), by simp⟩
  | case2 name entries =>
    obtain ⟨htable, -⟩ := List.forall_mem_cons.mp htables
    obtain ⟨m, hm, hread⟩ := readLines_table [] htable (lookup_eq_none_of_nodup hnames) (by simp) hn
    exact ⟨_, hread.trans (readLines_nil hm), by simp [Draft.within]⟩
  | case3 name entries rest _ ih =>
    obtain ⟨htable, hothers⟩ := List.forall_mem_cons.mp htables
    obtain ⟨m, hm, hread⟩ := readLines_table ('\n' :: (writeTables rest).toList) htable
      (lookup_eq_none_of_nodup hnames) (by simp) hn
    obtain ⟨k, rfl⟩ := Nat.exists_eq_succ_of_ne_zero (Nat.ne_zero_of_lt hm)
    -- The empty line is passed over.
    obtain ⟨draft, hrest, hroot⟩ := ih (done ++ [(name, .table .header (tomlEntries entries))]) [name]
      hothers (by simpa using hnames) (Nat.lt_of_succ_lt_succ hm)
    exact ⟨draft, hread.trans hrest, by rw [hroot]; simp⟩

theorem parse?_writeTables {tables : List (String × List (String × Setting))} (hne : tables ≠ [])
    (htables : ∀ table ∈ tables, WritableTable table) (hnames : (tables.map Prod.fst).Nodup) :
    parse? (writeTables tables) = some (.table .header
      (tables.map fun table => (table.1, .table .header (tomlEntries table.2)))) := by
  obtain ⟨draft, hread, hroot⟩ := readLines_writeTables [] [] htables (by simpa using hnames)
    (Nat.lt_succ_self _)
  -- The document starts with a bracket, and not with a byte order mark.
  obtain ⟨text, htext⟩ : ∃ text, (writeTables tables).toList = '[' :: text := by
    fun_cases writeTables tables with
    | case1 => exact absurd rfl hne
    | case2 => simp
    | case3 => simp
  unfold parse?
  rw [htext] at hread ⊢
  exact (congrArg (Option.map Draft.root) hread).trans (congrArg some hroot)

end Setting

namespace Settings

/-- Settings that can be written: numbers that TOML has, and texts without quotes, backslashes and
    control characters. -/
structure Writable (settings : Settings) : Prop where
  concurrency : settings.folder.concurrency ≤ Word.maxSigned64
  maxFileSize : settings.folder.maxFileSizeMb ≤ Word.max32
  exclude : ∀ pattern ∈ settings.folder.exclude, Plain pattern
  format : Plain settings.output.format

theorem strings?_array (values : List String) : strings? (.array (values.map .string)) = some values := by
  rw [strings?]
  induction values with
  | nil => rfl
  | cons value values ih => simp only [List.map_cons, List.mapM_cons, ih, string?]; rfl

theorem natural?_integer {limit n : Nat} (h : n ≤ limit) : natural? limit (.integer n) = some n := by
  have hhigh : (n : Int) ≤ limit := by omega
  simp [natural?, hhigh]

theorem ofToml?_folder {settings : Settings} (h : settings.Writable) :
    FolderSettings.ofToml? (.table .header (Setting.tomlEntries settings.folder.entries)) =
      some settings.folder := by
  have hconcurrency : natural? Word.max64 (.integer settings.folder.concurrency) =
      some settings.folder.concurrency := natural?_integer (Nat.le_trans h.concurrency (by decide))
  have hfind : let entries := Setting.tomlEntries settings.folder.entries
      entries.lookup "concurrency" = some (.integer settings.folder.concurrency) ∧
      entries.lookup "max_file_size_mb" = some (.integer settings.folder.maxFileSizeMb) ∧
      entries.lookup "include_hidden" = some (.bool settings.folder.includeHidden) ∧
      entries.lookup "respect_gitignore" = some (.bool settings.folder.respectGitignore) ∧
      entries.lookup "exclude" = some (.array (settings.folder.exclude.map .string)) :=
    ⟨rfl, rfl, rfl, rfl, rfl⟩
  simp only [FolderSettings.ofToml?, group?, Option.bind_eq_bind, Option.bind_some, hfind, setting?,
    hconcurrency, natural?_integer h.maxFileSize, bool?, strings?_array]
  rfl

theorem ofToml?_output (settings : OutputSettings) :
    OutputSettings.ofToml? (.table .header (Setting.tomlEntries settings.entries)) = some settings := by
  simp [OutputSettings.ofToml?, group?, setting?, Setting.tomlEntries, OutputSettings.entries, Setting.toToml,
    string?]

/-- Settings that are written are read as the same settings. -/
theorem ofText?_toText {settings : Settings} (h : settings.Writable) :
    ofText? settings.toText = some settings := by
  have hfolder : Setting.WritableTable ("folder", settings.folder.entries) := by
    have hsize : settings.folder.maxFileSizeMb ≤ Word.maxSigned64 :=
      Nat.le_trans h.maxFileSize (by decide)
    refine ⟨(by decide : Bare "folder"), ?_, by simp [FolderSettings.entries]⟩
    simp only [FolderSettings.entries, List.forall_mem_cons, List.not_mem_nil, false_implies, implies_true,
      and_true]
    exact ⟨⟨by decide, h.concurrency⟩, ⟨by decide, hsize⟩, ⟨by decide, trivial⟩, ⟨by decide, trivial⟩,
      by decide, h.exclude⟩
  have houtput : Setting.WritableTable ("output", settings.output.entries) := by
    refine ⟨(by decide : Bare "output"), ?_, by simp [OutputSettings.entries]⟩
    simp only [OutputSettings.entries, List.forall_mem_cons, List.not_mem_nil, false_implies, implies_true,
      and_true]
    exact ⟨by decide, h.format⟩
  rw [ofText?, toText, Setting.parse?_writeTables (by simp) (by simpa using ⟨hfolder, houtput⟩) (by simp)]
  simp [ofToml?, group?, setting?, List.lookup_cons, ofToml?_folder h, ofToml?_output]

theorem ofText?_defaultText : ofText? defaultText = some {} :=
  ofText?_toText ⟨by decide, by decide, by simp, by decide⟩

end Settings

end CodeOutline
