import CodeOutline.Proofs.Path.Components

/-! # Paths as seen from a root

A path below a root is shown in two ways: as it was written, or as its components with single slashes
between them.  Both have the same components, since components that are written one behind the other are
read again as they were (`components_intercalate`).  This holds of a front as well: a root with a slash
behind it is two slashes, and these are still the root.

From an absolute root no two places look alike.  What is inside of the root is seen as a path without
the root in it, and what is outside keeps its own (`components_eq_of_relativeTo_eq`).
-/

namespace CodeOutline.Path

open Text (splitOnChar)

/-! ## Components as they are written -/

/-- The components of pieces, written as pieces, have the same components. -/
theorem filterMap_map_text (ps : List (List Char)) :
    ((ps.filterMap pieceComponent?).map fun c => c.text.toList).filterMap pieceComponent? =
      ps.filterMap pieceComponent? := by
  induction ps with
  | nil => rfl
  | cons p ps ih =>
    cases hp : pieceComponent? p with
    | none => rw [List.filterMap_cons_none hp, ih]
    | some c =>
      have htext : pieceComponent? c.text.toList = some c := by rw [text_of_pieceComponent? hp, hp]
      rw [List.filterMap_cons_some hp, List.map_cons, List.filterMap_cons_some htext, ih]

theorem of_mem_map_text {text piece : List Char}
    (h : piece ∈ ((pieces text).filterMap pieceComponent?).map fun c => c.text.toList) :
    '/' ∉ piece ∧ isSkipped piece = false := by
  obtain ⟨c, hc, rfl⟩ := List.mem_map.mp h
  obtain ⟨own, hown, hcomponent⟩ := List.mem_filterMap.mp hc
  rw [text_of_pieceComponent? hcomponent]
  exact ⟨slash_not_mem_of_mem_pieces hown, by simp [isSkipped, hcomponent]⟩

theorem front?_cases (text : List Char) :
    front? text = none ∨ front? text = some .root ∨ front? text = some .here := by
  unfold front?
  split <;> simp

/-- The text of a front, with a slash before what follows, is read as the front. -/
theorem components_front_cons {front : Component} (hfront : front = .root ∨ front = .here)
    {ps : List (List Char)} (hslash : ∀ p ∈ ps, '/' ∉ p) :
    components (String.ofList (joinSlash (front.text.toList :: ps))) =
      front :: ps.filterMap pieceComponent? := by
  have hread := filterMap_splitOnChar_joinSlash hslash
  cases ps with
  | nil => rcases hfront with rfl | rfl <;> rfl
  | cons p ps =>
    have hbehind : (splitOnChar '/' ('/' :: joinSlash (p :: ps))).filterMap pieceComponent? =
        (p :: ps).filterMap pieceComponent? := by
      simpa [splitOnChar, pieceComponent?] using hread
    rcases hfront with rfl | rfl
    · rw [components, String.toList_ofList]
      exact congrArg (Component.root :: ·) hbehind
    · rw [components, String.toList_ofList]
      exact congrArg (Component.here :: ·) hbehind

theorem components_intercalate (path : String) :
    components ("/".intercalate ((components path).map Component.text)) = components path := by
  have htext : "/".intercalate ((components path).map Component.text) =
      String.ofList (joinSlash ((components path).map fun c => c.text.toList)) := by
    apply String.toList_injective
    rw [String.toList_intercalate, joinSlash_eq_intercalate, List.map_map]
    exact String.toList_ofList.symm
  have hslash : ∀ p ∈ ((pieces path.toList).filterMap pieceComponent?).map fun c => c.text.toList,
      '/' ∉ p := fun p hp => (of_mem_map_text hp).1
  have hbody := filterMap_map_text (pieces path.toList)
  rw [htext]
  rcases front?_cases path.toList with hfront | hfront | hfront
  · have hcomponents : components path = (pieces path.toList).filterMap pieceComponent? := by
      simp [components, hfront]
    rw [hcomponents, components_joinSlash hslash, hbody]
    exact fun p hp => (of_mem_map_text (List.mem_of_mem_head? hp)).2
  · have hcomponents : components path =
        .root :: (pieces path.toList).filterMap pieceComponent? := by simp [components, hfront]
    rw [hcomponents, List.map_cons, components_front_cons (.inl rfl) hslash, hbody]
  · have hcomponents : components path =
        .here :: (pieces path.toList).filterMap pieceComponent? := by simp [components, hfront]
    rw [hcomponents, List.map_cons, components_front_cons (.inr rfl) hslash, hbody]

/-! ## What is shown of a path -/

theorem relativeTo_of_some {root path rest : String} (h : stripBase? root path = some rest) :
    relativeTo root path = "/".intercalate ((components rest).map Component.text) := by
  simp [relativeTo, h]

theorem relativeTo_of_none {root path : String} (h : stripBase? root path = none) :
    relativeTo root path = path := by
  simp [relativeTo, h]

theorem components_relativeTo (root path : String) :
    components (relativeTo root path) = components (shownFrom root path) := by
  cases hstrip : stripBase? root path with
  | none => simp [relativeTo_of_none hstrip, shownFrom, hstrip]
  | some rest => simp [relativeTo_of_some hstrip, components_intercalate, shownFrom, hstrip]

/-- Behind a base a relative path has its components, but a dot at its front is none any more. -/
theorem filterMap_splitOnChar_of_relative {path : String} (hpath : ¬ isAbsolute path) :
    (splitOnChar '/' path.toList).filterMap pieceComponent? =
      (components path).dropWhile (· = .here) := by
  have hbody : ∀ ps : List (List Char), (ps.filterMap pieceComponent?).dropWhile (· = .here) =
      ps.filterMap pieceComponent? := by
    intro ps
    cases hps : ps.filterMap pieceComponent? with
    | nil => rfl
    | cons c cs =>
      have hmem : c ∈ ps.filterMap pieceComponent? := by simp [hps]
      obtain ⟨p, -, hp⟩ := List.mem_filterMap.mp hmem
      simp [(not_front_of_pieceComponent? hp).2]
  rcases front?_cases path.toList with hfront | hfront | hfront
  · rw [components, hfront, pieces, hfront]
    exact (hbody _).symm
  · exact absurd (isAbsolute_iff_front?.mpr hfront) hpath
  · rw [components, hfront, pieces, hfront]
    simp only [Option.toList_some, List.cons_append, List.nil_append, Option.isSome_some, if_true,
      List.dropWhile_cons, decide_true, hbody]
    -- The dot is all of the path, or a piece of its own.
    unfold front? at hfront
    split at hfront
    · cases hfront
    · rename_i heq
      rw [heq]
      rfl
    · rename_i rest heq
      rw [heq]
      rfl
    · cases hfront

theorem components_shownFrom_join {root path : String} (hroot : isAbsolute root)
    (hpath : ¬ isAbsolute path) :
    components (shownFrom root (join root path)) = (components path).dropWhile (· = .here) := by
  have hne : root ≠ "" := by
    rintro rfl
    cases hroot
  obtain ⟨rest, hrest, hcomponents⟩ := exists_stripBase? (components_join hne hpath)
  rw [shownFrom, hrest, Option.getD_some, hcomponents, filterMap_splitOnChar_of_relative hpath]

/-! ## Telling paths apart -/

theorem components_of_isAbsolute {path : String} (h : isAbsolute path) :
    ∃ body, components path = .root :: body ∧ .root ∉ body := by
  refine ⟨(pieces path.toList).filterMap pieceComponent?, ?_, ?_⟩
  · rw [components, isAbsolute_iff_front?.mp h]
    rfl
  · intro hmem
    obtain ⟨p, -, hp⟩ := List.mem_filterMap.mp hmem
    exact (not_front_of_pieceComponent? hp).1 rfl

/-- What is left of an absolute path behind an absolute root does not start at the root. -/
theorem root_not_mem_of_stripBase? {root path rest : String} (hroot : isAbsolute root)
    (hpath : isAbsolute path) (h : stripBase? root path = some rest) :
    .root ∉ components rest := by
  obtain ⟨above, habove, -⟩ := components_of_isAbsolute hroot
  obtain ⟨body, hbody, hnot⟩ := components_of_isAbsolute hpath
  have hsplit := components_stripBase? h
  rw [hbody, habove, List.cons_append, List.cons.injEq] at hsplit
  intro hmem
  apply hnot
  rw [hsplit.2]
  exact List.mem_append_right above hmem

theorem relativeTo_ne_of_inside {root path other rest : String} (hroot : isAbsolute root)
    (hpath : isAbsolute path) (hother : isAbsolute other) (h : stripBase? root path = some rest) :
    relativeTo root path ≠ other := by
  intro heq
  obtain ⟨body, hbody, -⟩ := components_of_isAbsolute hother
  have hrest : components rest = components other := by
    rw [← heq, relativeTo_of_some h, components_intercalate]
  apply root_not_mem_of_stripBase? hroot hpath h
  rw [hrest, hbody]
  exact List.mem_cons_self

theorem components_eq_of_relativeTo_eq {root path other : String} (hroot : isAbsolute root)
    (hpath : isAbsolute path) (hother : isAbsolute other)
    (h : relativeTo root path = relativeTo root other) : components path = components other := by
  cases hstrip : stripBase? root path with
  | none =>
    cases hstrip' : stripBase? root other with
    | none =>
      rw [relativeTo_of_none hstrip, relativeTo_of_none hstrip'] at h
      rw [h]
    | some rest =>
      rw [relativeTo_of_none hstrip] at h
      exact absurd h.symm (relativeTo_ne_of_inside hroot hother hpath hstrip')
  | some rest =>
    cases hstrip' : stripBase? root other with
    | none =>
      rw [relativeTo_of_none hstrip'] at h
      exact absurd h (relativeTo_ne_of_inside hroot hpath hother hstrip)
    | some rest' =>
      have hsame : components rest = components rest' := by
        rw [← components_intercalate rest, ← components_intercalate rest',
          ← relativeTo_of_some hstrip, ← relativeTo_of_some hstrip', h]
      rw [components_stripBase? hstrip, components_stripBase? hstrip', hsame]

/-- The two ways to show a path from a root have the same components.  From an absolute root, a relative
    path that is put behind the root is shown with its own components, up to a dot at its front, and two
    absolute paths that are shown alike have the same components. -/
theorem relative_paths_faithful (root : String) :
    (∀ path, components (relativeTo root path) = components (shownFrom root path)) ∧
    (isAbsolute root → ∀ path, ¬ isAbsolute path →
      components (relativeTo root (join root path)) = (components path).dropWhile (· = .here) ∧
      components (shownFrom root (join root path)) = (components path).dropWhile (· = .here)) ∧
    (isAbsolute root → ∀ path other, isAbsolute path → isAbsolute other →
      relativeTo root path = relativeTo root other → components path = components other) := by
  refine ⟨components_relativeTo root, ?_, ?_⟩
  · intro hroot path hpath
    have hshown := components_shownFrom_join hroot hpath
    exact ⟨(components_relativeTo root (join root path)).trans hshown, hshown⟩
  · intro hroot path other hpath hother h
    exact components_eq_of_relativeTo_eq hroot hpath hother h

/-- A root and paths that are written with more than is needed. -/
theorem relative_paths_faithful_untidy :
    isAbsolute "/work/./" ∧ ¬ isAbsolute ".//src/../a.ts" ∧
    components (relativeTo "/work/./" (join "/work/./" ".//src/../a.ts")) =
      [.name "src", .parent, .name "a.ts"] ∧
    isAbsolute "/work//a.ts" ∧ isAbsolute "/work/a.ts/" ∧
    relativeTo "/work/./" "/work//a.ts" = relativeTo "/work/./" "/work/a.ts/" ∧
    components "/work//a.ts" = components "/work/a.ts/" := by
  have hroot : isAbsolute "/work/./" := rfl
  have hpath : ¬ isAbsolute ".//src/../a.ts" := by decide
  obtain ⟨-, hjoined, hapart⟩ := relative_paths_faithful "/work/./"
  refine ⟨hroot, hpath, (hjoined hroot _ hpath).1.trans rfl, rfl, rfl, rfl, ?_⟩
  exact hapart hroot _ _ rfl rfl rfl

end CodeOutline.Path
