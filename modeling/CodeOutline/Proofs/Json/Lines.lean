import CodeOutline.Proofs.Json.Writing

/-! # Documents over several lines

A document that is spread over lines is read as the same document (`onText_pretty`).  It differs from the
compact text only in the blanks, so that elements and members are read by the lemmas for lists with
commas: every element has the end of a line and an indentation before it, and so does what closes them.
-/

namespace CodeOutline.Json.Reader

/-! ## Blanks -/

/-- The end of a line and the spaces before the next one. -/
def lineStart (level : Nat) : List Char :=
  '\n' :: (indent level).toList

theorem bare_lineStart (level : Nat) (text : List Char) : bare (lineStart level ++ text) = bare text := by
  have hblank : ∀ c ∈ lineStart level, isJsonBlank c = true := by
    intro c hc
    rw [lineStart, indent, String.toList_ofList, List.mem_cons, List.mem_replicate] at hc
    obtain rfl | ⟨-, rfl⟩ := hc <;> rfl
  exact List.dropWhile_append_of_pos hblank

theorem closed_lineStart (level : Nat) (text : List Char) : Closed (lineStart level ++ text) :=
  closed_cons _ (by simp)

theorem value_lineStart (n level : Nat) (text : List Char) :
    value n (lineStart level ++ text) = value n text := by
  rw [← value_bare, bare_lineStart, value_bare]

theorem value_space (n : Nat) (text : List Char) : value n (' ' :: text) = value n text := by
  rw [← value_bare n (' ' :: text), ← value_bare n text]
  rfl

/-! ## Elements and members -/

/-- An element on a line of its own. -/
def lineItem (level : Nat) (item : Json) : List Char :=
  lineStart level ++ (prettyAt level item).toList

/-- The value of a member behind the colon. -/
def lineValue (level : Nat) (json : Json) : List Char :=
  ' ' :: (prettyAt level json).toList

theorem toList_prettyItems (level : Nat) (item : Json) (items : List Json) :
    '\n' :: (prettyItems level (item :: items)).toList =
      separated (lineItem level) (item :: items) := by
  induction items generalizing item with
  | nil => simp [prettyItems, separated, lineItem, lineStart]
  | cons next items ih =>
    have hrest := ih next
    simp only [separated, lineItem, lineStart] at hrest
    simp [prettyItems, separated, lineItem, lineStart, hrest]

theorem toList_prettyMembers (level : Nat) (member : String × Json) (members : List (String × Json)) :
    '\n' :: (prettyMembers level (member :: members)).toList =
      separated (writtenMember (lineStart level) (lineValue level)) (member :: members) := by
  induction members generalizing member with
  | nil => simp [prettyMembers, separated, writtenMember, lineStart, lineValue]
  | cons next members ih =>
    have hrest := ih next
    simp only [separated, writtenMember, lineStart, lineValue] at hrest
    simp [prettyMembers, separated, writtenMember, lineStart, lineValue, hrest]

/-! ## Documents -/

/-- Scalars are written on one line. -/
theorem value_prettyAt_scalar {n : Nat} {json : Json} (hfits : fits 0 json = true) (level : Nat)
    {rest : List Char} (hrest : Closed rest) :
    value n ((prettyAt level json).toList ++ rest) = .ok (json, rest) := by
  have hline : prettyAt level json = compact json := by
    cases json with
    | bool b => cases b <;> rfl
    | null | natural | string => rfl
    | decimal | array | object => cases hfits
  rw [hline]
  exact value_compact_scalar hfits hrest

/-- Every document that fits is read from its lines. -/
theorem value_prettyAt {n : Nat} {json : Json} (hfits : fits n json = true) (level : Nat)
    {rest : List Char} (hrest : Closed rest) :
    value n ((prettyAt level json).toList ++ rest) = .ok (json, rest) := by
  induction n generalizing json level rest with
  | zero => exact value_prettyAt_scalar hfits level hrest
  | succ n ih =>
    cases json with
    | array items =>
      cases items with
      | nil => exact value_compact hfits hrest
      | cons item items =>
        have htext : (prettyAt level (.array (item :: items))).toList ++ rest =
            '[' :: (separated (lineItem (level + 1)) (item :: items) ++
              (lineStart level ++ ']' :: rest)) := by
          rw [← toList_prettyItems]
          simp [prettyAt, lineStart]
        rw [htext]
        refine value_of_elements (bare_cons _ rfl) (length_le_separated _ _ (by simp))
          (elements_separated (closed_lineStart level _) (bare_lineStart level _)
            fun item hitem rest hrest => ?_)
        rw [lineItem, List.append_assoc, value_lineStart]
        exact ih (List.all_eq_true.mp hfits item hitem) _ hrest
    | object members =>
      cases members with
      | nil => exact value_compact hfits hrest
      | cons member members =>
        have htext : (prettyAt level (.object (member :: members))).toList ++ rest =
            '\x7b' :: (separated (writtenMember (lineStart (level + 1)) (lineValue (level + 1)))
              (member :: members) ++ (lineStart level ++ '\x7d' :: rest)) := by
          rw [← toList_prettyMembers]
          simp [prettyAt, lineStart]
        rw [htext]
        refine value_of_members (bare_cons _ rfl) (length_le_separated _ _ (by simp))
          (members_separated (bare_lineStart _) (closed_lineStart level _) (bare_lineStart level _)
            fun member hmember rest hrest => ?_)
        rw [lineValue, List.cons_append, value_space]
        exact ih (List.all_eq_true.mp hfits member hmember) _ hrest
    | null | bool | natural | decimal | string =>
      refine value_prettyAt_scalar ?_ level hrest
      exact hfits

/-- A document that fits is what its lines hold, also with the end of the last line. -/
theorem onText_pretty {n : Nat} {json : Json} (h : fits n json = true) :
    (value n).onText (pretty json ++ "\n") = .ok json := by
  have hvalue := value_prettyAt h 0 (closed_cons [] (c := '\n') (by simp))
  refine onText_eq_ok_iff.mpr ⟨['\n'], ?_, rfl⟩
  rw [String.toList_append]
  exact hvalue

end CodeOutline.Json.Reader
