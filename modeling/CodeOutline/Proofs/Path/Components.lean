import CodeOutline.Proofs.Path.Characters

/-! # The components of joined and cut paths

A path that is put behind another one brings its components with it, and cutting a base off a path takes
the components of the base away.  Both come down to where a text is cut at its slashes: a slash inside
of a path divides its pieces, whatever stands on the two sides of it (`pieces_append_slash`).
-/

namespace CodeOutline

namespace Path

open Text (splitOnChar splitOnChar_append_cons splitOnChar_of_not_mem mem_head?_of_isPrefix
  eq_false_of_mem_head?_dropWhile)

/-! ## Components as they are written -/

theorem text_of_pieceComponent? {piece : List Char} {c : Component}
    (h : pieceComponent? piece = some c) : c.text.toList = piece := by
  simp only [pieceComponent?] at h
  split at h
  · cases h
  · split at h
    · rename_i hparent
      cases h
      rw [hparent]
      rfl
    · cases h
      exact String.toList_ofList

theorem not_front_of_pieceComponent? {piece : List Char} {c : Component}
    (h : pieceComponent? piece = some c) : c ≠ .root ∧ c ≠ .here := by
  simp only [pieceComponent?] at h
  split at h
  · cases h
  · split at h <;> cases h <;> simp

/-! ## Slashes inside of a path -/

theorem front?_append_slash {text : List Char} (h : text ≠ []) (rest : List Char) :
    front? (text ++ '/' :: rest) = front? text := by
  match text with
  | [] => exact absurd rfl h
  | [c] =>
    by_cases hroot : c = '/'
    · simp [hroot, front?]
    · by_cases hdot : c = '.' <;> simp [hroot, hdot, front?]
  | c :: d :: tail =>
    by_cases hroot : c = '/'
    · simp [hroot, front?]
    · by_cases hdot : c = '.' <;> by_cases hslash : d = '/' <;> simp [hroot, hdot, hslash, front?]

theorem isAbsolute_iff_front? {path : String} :
    isAbsolute path ↔ front? path.toList = some .root := by
  rw [isAbsolute]
  unfold front?
  split <;> simp_all [List.head?_eq_some_iff]

theorem pieces_append_slash {text : List Char} (h : text ≠ []) (rest : List Char) :
    pieces (text ++ '/' :: rest) = pieces text ++ splitOnChar '/' rest := by
  rw [pieces, pieces, front?_append_slash h]
  split
  · rw [List.drop_append_of_le_length (List.length_pos_iff.mpr h), splitOnChar_append_cons]
  · rw [splitOnChar_append_cons]

/-! ## Joining -/

/-- A relative path is put behind the pieces of a base.  If the base ends in a slash, the empty piece
    behind it makes room. -/
theorem pieces_join {base path : String} (hbase : base ≠ "") (hpath : ¬isAbsolute path) :
    front? (join base path).toList = front? base.toList ∧
      ∃ ps, (pieces base.toList = ps ∨ pieces base.toList = ps ++ [[]]) ∧
        pieces (join base path).toList = ps ++ splitOnChar '/' path.toList := by
  have hne : base.toList ≠ [] := fun hnil => hbase (String.toList_eq_nil_iff.mp hnil)
  simp only [join, hpath, hbase, String.isEmpty_iff, Bool.or_eq_true, false_or, beq_iff_eq,
    Bool.false_eq_true, if_false]
  split
  · rename_i hlast
    obtain ⟨front, hfront⟩ := List.getLast?_eq_some_iff.mp hlast
    have htext : (base ++ path).toList = front ++ '/' :: path.toList := by simp [hfront]
    by_cases hroot : front = []
    · -- The base is the root alone.
      rw [htext, hfront, hroot]
      exact ⟨rfl, [], .inr rfl, rfl⟩
    · rw [htext, hfront, front?_append_slash hroot, front?_append_slash hroot,
        pieces_append_slash hroot, pieces_append_slash hroot]
      exact ⟨rfl, pieces front, .inr rfl, rfl⟩
  · have htext : (base ++ "/" ++ path).toList = base.toList ++ '/' :: path.toList := by simp
    rw [htext, front?_append_slash hne, pieces_append_slash hne]
    exact ⟨rfl, pieces base.toList, .inl rfl, rfl⟩

theorem isAbsolute_append {base : String} (h : isAbsolute base) (rest : String) :
    isAbsolute (base ++ rest) := by
  have hfront : base.toList.head? = some '/' := by simpa [isAbsolute] using h
  simp [isAbsolute, hfront]

theorem isAbsolute_join {base : String} (h : isAbsolute base) (path : String) :
    isAbsolute (join base path) := by
  unfold join
  split
  · assumption
  · split
    · exact isAbsolute_append h path
    · exact isAbsolute_append (isAbsolute_append h "/") path

/-- An absolute path is the same from everywhere. -/
theorem join_of_isAbsolute (base : String) {path : String} (h : isAbsolute path) :
    join base path = path :=
  if_pos h

/-- The components of a relative path behind a base. -/
theorem components_join {base path : String} (hbase : base ≠ "") (hpath : ¬isAbsolute path) :
    components (join base path) =
      components base ++ (splitOnChar '/' path.toList).filterMap pieceComponent? := by
  obtain ⟨hfront, ps, hps, hpieces⟩ := pieces_join hbase hpath
  have hsame : (pieces base.toList).filterMap pieceComponent? = ps.filterMap pieceComponent? := by
    rcases hps with hps | hps
    · rw [hps]
    · rw [hps, List.filterMap_append]
      exact List.append_nil _
  simp only [components, hfront, hpieces, hsame, List.filterMap_append, List.append_assoc]

theorem IsName.not_isAbsolute {name : String} (h : IsName name) : ¬isAbsolute name := by
  intro habsolute
  have hhead : name.toList.head? = some '/' := by simpa [isAbsolute] using habsolute
  exact h.2 (List.mem_of_mem_head? hhead)

theorem IsName.join_ne_empty {name : String} (h : IsName name) (base : String) : join base name ≠ "" := by
  intro hempty
  have hname : name = "" := by
    unfold join at hempty
    split at hempty
    · exact hempty
    · split at hempty <;> exact (String.append_eq_empty_iff.mp hempty).2
  rw [hname] at h
  cases h.1

theorem components_join_name {base name : String} (hbase : base ≠ "") (h : IsName name) :
    components (join base name) = components base ++ [.name name] := by
  rw [components_join hbase h.not_isAbsolute, splitOnChar_of_not_mem h.2]
  simp [h.1]

/-! ## Cutting off a base -/

theorem filterMap_dropWhile_isSkipped (ps : List (List Char)) :
    (ps.dropWhile isSkipped).filterMap pieceComponent? = ps.filterMap pieceComponent? := by
  induction ps with
  | nil => rfl
  | cons p ps ih =>
    rw [List.dropWhile_cons]
    split
    · rename_i hskipped
      rw [ih, List.filterMap_cons_none (by simpa [isSkipped] using hskipped)]
    · rfl

theorem filterMap_trimBack (ps : List (List Char)) :
    (trimBack ps).filterMap pieceComponent? = ps.filterMap pieceComponent? := by
  rw [trimBack, List.filterMap_reverse, filterMap_dropWhile_isSkipped, List.filterMap_reverse,
    List.reverse_reverse]

theorem slash_not_mem_of_mem_pieces {text piece : List Char} (h : piece ∈ pieces text) :
    '/' ∉ piece :=
  Text.not_mem_of_mem_splitOnChar h

theorem trimBack_isPrefix (ps : List (List Char)) : trimBack ps <+: ps := by
  rw [trimBack, ← List.reverse_suffix, List.reverse_reverse]
  exact List.dropWhile_suffix _

/-- Pieces that are joined are cut apart again at the same places. -/
theorem filterMap_splitOnChar_joinSlash {ps : List (List Char)} (hslash : ∀ p ∈ ps, '/' ∉ p) :
    (splitOnChar '/' (joinSlash ps)).filterMap pieceComponent? = ps.filterMap pieceComponent? := by
  cases ps with
  | nil => rfl
  | cons p ps =>
    rw [joinSlash_eq_intercalate, Text.splitOnChar_eq_splitOn,
      List.splitOn_intercalate '/' hslash (List.cons_ne_nil p ps)]

theorem front?_of_not_isSkipped {piece : List Char} (hslash : '/' ∉ piece)
    (h : isSkipped piece = false) : front? piece = none := by
  unfold front?
  split <;> simp_all [isSkipped, pieceComponent?]

theorem front?_joinSlash {ps : List (List Char)} (hslash : ∀ p ∈ ps, '/' ∉ p)
    (hfirst : ∀ p ∈ ps.head?, isSkipped p = false) : front? (joinSlash ps) = none := by
  match ps with
  | [] => rfl
  | [p] => exact front?_of_not_isSkipped (hslash p List.mem_cons_self) (hfirst p rfl)
  | p :: q :: qs =>
    have hp : p ≠ [] := by
      rintro rfl
      cases hfirst [] rfl
    rw [joinSlash, front?_append_slash hp]
    · exact front?_of_not_isSkipped (hslash p List.mem_cons_self) (hfirst p rfl)
    · simp

theorem components_joinSlash {ps : List (List Char)} (hslash : ∀ p ∈ ps, '/' ∉ p)
    (hfirst : ∀ p ∈ ps.head?, isSkipped p = false) :
    components (String.ofList (joinSlash ps)) = ps.filterMap pieceComponent? := by
  rw [components, String.toList_ofList, pieces, front?_joinSlash hslash hfirst]
  exact filterMap_splitOnChar_joinSlash hslash

/-- Without the pieces at both ends that say nothing a text has the same components. -/
theorem components_tidy {ps : List (List Char)} (hslash : ∀ p ∈ ps, '/' ∉ p) :
    components (String.ofList (joinSlash (trimBack (ps.dropWhile isSkipped)))) =
      ps.filterMap pieceComponent? := by
  have hleft := trimBack_isPrefix (ps.dropWhile isSkipped)
  rw [components_joinSlash, filterMap_trimBack, filterMap_dropWhile_isSkipped]
  · exact fun p hp => hslash p ((List.dropWhile_sublist _).subset (hleft.subset hp))
  · exact fun p hp => eq_false_of_mem_head?_dropWhile (mem_head?_of_isPrefix hleft hp)

theorem isSkipped_eq_false_iff {piece : List Char} :
    isSkipped piece = false ↔ piece ≠ [] ∧ piece ≠ ['.'] := by
  simp only [isSkipped, pieceComponent?]
  split <;> rename_i h
  · rcases h with rfl | rfl <;> simp
  · rw [not_or] at h
    split <;> simp [h]

/-- A path that has no front begins with a piece that says something. -/
theorem isSkipped_head?_pieces {text p : List Char} (hne : text ≠ []) (hfront : front? text = none)
    (hp : p ∈ (pieces text).head?) : isSkipped p = false := by
  rw [pieces, hfront, Option.mem_def] at hp
  simp only [Option.isSome_none, Bool.false_eq_true, if_false, Text.head?_splitOnChar] at hp
  rw [isSkipped_eq_false_iff, ← Option.some.inj hp]
  match text with
  | [] => exact absurd rfl hne
  | [c] =>
    have hc : c ≠ '/' ∧ c ≠ '.' := by constructor <;> rintro rfl <;> cases hfront
    simp [hc]
  | c :: d :: tail =>
    have hc : c ≠ '/' := by rintro rfl; cases hfront
    by_cases hd : d = '/'
    · have hdot : c ≠ '.' := by rintro rfl; cases hd; cases hfront
      simp [hc, hd, hdot]
    · simp [hc, hd]

/-- Trimming the pieces at the end leaves the components of a path as they are. -/
theorem components_trimmed_of_none {path : String} (hfront : front? path.toList = none) :
    components (String.ofList (joinSlash (trimBack (pieces path.toList)))) = components path := by
  by_cases hne : path.toList = []
  · rw [hne, String.toList_eq_nil_iff.mp hne]
    rfl
  · rw [components_joinSlash, filterMap_trimBack]
    · simp [components, hfront]
    · exact fun p hp => slash_not_mem_of_mem_pieces (trimBack_subset _ hp)
    · intro p hp
      exact isSkipped_head?_pieces hne hfront (mem_head?_of_isPrefix (trimBack_isPrefix _) hp)

theorem trimBack_nil_cons (ps : List (List Char)) :
    trimBack ([] :: ps) = if trimBack ps = [] then [] else [] :: trimBack ps := by
  simp only [trimBack, List.reverse_cons, List.dropWhile_append, List.reverse_eq_nil_iff,
    List.isEmpty_iff]
  split
  · rfl
  · simp

theorem front?_take_trimBack {text : List Char} {front : Component} (hfront : front? text = some front) :
    front? (text.take 1 ++ joinSlash (trimBack (pieces text))) = some front ∧
      pieces (text.take 1 ++ joinSlash (trimBack (pieces text))) =
        splitOnChar '/' (joinSlash (trimBack (pieces text))) := by
  have hbody : ∀ c tail, text = c :: tail → pieces text = splitOnChar '/' tail := by
    rintro c tail rfl
    simp [pieces, hfront]
  unfold front? at hfront
  split at hfront
  · rename_i tail
    obtain rfl := Option.some.inj hfront
    simp [front?, pieces]
  · obtain rfl := Option.some.inj hfront
    exact ⟨rfl, rfl⟩
  · -- Behind the dot stands a slash, or nothing if no piece is left.
    rename_i tail
    obtain rfl := Option.some.inj hfront
    rw [hbody '.' ('/' :: tail) rfl]
    simp only [splitOnChar, if_true, trimBack_nil_cons]
    split
    · exact ⟨rfl, rfl⟩
    · cases hps : trimBack (splitOnChar '/' tail) with
      | nil => simp_all
      | cons p ps => simp [joinSlash, front?, pieces]
  · cases hfront

theorem components_trimmed_of_some {path : String} {front : Component}
    (hfront : front? path.toList = some front) :
    components (String.ofList (path.toList.take 1 ++ joinSlash (trimBack (pieces path.toList)))) =
      components path := by
  obtain ⟨hsame, hpieces⟩ := front?_take_trimBack hfront
  rw [components, String.toList_ofList, hsame, hpieces, filterMap_splitOnChar_joinSlash,
    filterMap_trimBack, components, hfront]
  exact fun p hp => slash_not_mem_of_mem_pieces (trimBack_subset _ hp)

theorem filterMap_of_dropComponents {cs : List Component} {ps rest : List (List Char)}
    (h : dropComponents cs ps = some rest) :
    ps.filterMap pieceComponent? = cs ++ rest.filterMap pieceComponent? := by
  induction cs generalizing ps with
  | nil =>
    cases h
    rfl
  | cons c cs ih =>
    rw [← filterMap_dropWhile_isSkipped]
    simp only [dropComponents] at h
    split at h
    · cases h
    · rename_i p others heq
      split at h
      · rename_i hp
        rw [heq, List.filterMap_cons_some hp, ih h, List.cons_append]
      · cases h

theorem exists_dropComponents {cs ds : List Component} {ps : List (List Char)}
    (h : ps.filterMap pieceComponent? = cs ++ ds) : ∃ rest, dropComponents cs ps = some rest := by
  induction cs generalizing ps with
  | nil => exact ⟨ps, rfl⟩
  | cons c cs ih =>
    rw [← filterMap_dropWhile_isSkipped] at h
    simp only [dropComponents]
    cases hps : ps.dropWhile isSkipped with
    | nil => simp [hps] at h
    | cons p others =>
      have hkept : isSkipped p = false := by
        apply eq_false_of_mem_head?_dropWhile
        rw [hps]
        rfl
      obtain ⟨d, hd⟩ : ∃ d, pieceComponent? p = some d := by
        simpa [isSkipped, Option.isSome_iff_exists] using hkept
      rw [hps, List.filterMap_cons_some hd, List.cons_append] at h
      obtain ⟨rfl, hrest⟩ := List.cons.inj h
      simpa [hd] using ih hrest

/-- What is left of a path behind a base has the components behind those of the base. -/
theorem components_stripBase? {base path rest : String} (h : stripBase? base path = some rest) :
    components path = components base ++ components rest := by
  have hdropped : ∀ {cs : List Component},
      (dropComponents cs (pieces path.toList)).map (fun ps =>
        String.ofList (joinSlash (trimBack (ps.dropWhile isSkipped)))) = some rest →
      (pieces path.toList).filterMap pieceComponent? = cs ++ components rest := by
    intro cs hmap
    obtain ⟨ps, hps, rfl⟩ := Option.map_eq_some_iff.mp hmap
    rw [filterMap_of_dropComponents hps, components_tidy]
    exact fun p hp => slash_not_mem_of_mem_pieces (dropComponents_subset hps hp)
  unfold stripBase? at h
  dsimp only at h
  split at h
  · rename_i hbase hfront
    cases h
    rw [hbase, components_trimmed_of_none hfront, List.nil_append]
  · rename_i hbase hfront
    cases h
    rw [hbase, components_trimmed_of_some hfront, List.nil_append]
  · rename_i hbase hfront
    split at h
    · rename_i hsame
      rw [hbase, components, hfront, hdropped h, hsame]
      rfl
    · cases h
  · rename_i hfront _
    rw [components, hfront, hdropped h]
    rfl

/-- A base can be cut off if its components are the first ones of the path. -/
theorem exists_stripBase? {base path : String} {cs : List Component}
    (h : components path = components base ++ cs) :
    ∃ rest, stripBase? base path = some rest ∧ components rest = cs := by
  obtain ⟨rest, hrest⟩ : ∃ rest, stripBase? base path = some rest := by
    unfold stripBase?
    dsimp only
    rw [components] at h
    split
    · exact ⟨_, rfl⟩
    · exact ⟨_, rfl⟩
    · rename_i c others front hbase hfront
      rw [hbase, hfront] at h
      obtain ⟨rfl, hpieces⟩ := List.cons.inj h
      obtain ⟨ps, hps⟩ := exists_dropComponents hpieces
      exact ⟨_, by rw [if_pos rfl, hps, Option.map_some]⟩
    · rename_i hfront _
      rw [hfront] at h
      obtain ⟨ps, hps⟩ := exists_dropComponents h
      exact ⟨_, by rw [hps, Option.map_some]⟩
  refine ⟨rest, hrest, ?_⟩
  rw [components_stripBase? hrest] at h
  exact List.append_cancel_left h

end Path

end CodeOutline
