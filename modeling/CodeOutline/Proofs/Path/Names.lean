import CodeOutline.Ignore.Level
import CodeOutline.Proofs.Path.Components
import CodeOutline.Proofs.Text.Pattern
import Mathlib.Data.List.Basic

/-! # Paths made of names

Names that lead down from a folder to a folder have a path of their own, with a slash between each two
(`ofNames`).  Put behind the path of the folder it can be cut off again as it was written, whether by
components (`stripBase?_join_ofNames`) or by characters (`innerFrom_join`).  The folders above it are
the paths of the shorter lists, down to the empty path of no names at all (`mem_ancestors_ofNames_iff`).
-/

namespace CodeOutline

namespace Path

open Text (splitOnChar splitOnChar_of_not_mem)

/-- The path of names one below the other. -/
def ofNames (names : List String) : String :=
  String.ofList (joinSlash (names.map String.toList))

theorem toList_ofNames (names : List String) :
    (ofNames names).toList = joinSlash (names.map String.toList) :=
  String.toList_ofList

@[simp] theorem ofNames_nil : ofNames [] = "" :=
  rfl

@[simp] theorem ofNames_singleton (name : String) : ofNames [name] = name :=
  String.ofList_toList

theorem ofNames_cons (name : String) {names : List String} (hne : names ≠ []) :
    ofNames (name :: names) = name ++ "/" ++ ofNames names := by
  cases names with
  | nil => exact absurd rfl hne
  | cons second rest =>
    apply String.toList_injective
    simp [toList_ofNames, joinSlash]

theorem IsName.isSkipped {name : String} (h : IsName name) : isSkipped name.toList = false := by
  simp [Path.isSkipped, h.1]

theorem IsName.toList_ne_nil {name : String} (h : IsName name) : name.toList ≠ [] :=
  (isSkipped_eq_false_iff.mp h.isSkipped).1

/-! ## The pieces of such a path -/

section Pieces

variable {names : List String} (hnames : ∀ name ∈ names, IsName name)
include hnames

theorem slash_not_mem_of_names : ∀ piece ∈ names.map String.toList, '/' ∉ piece := by
  intro piece hpiece
  obtain ⟨name, hname, rfl⟩ := List.mem_map.mp hpiece
  exact (hnames name hname).2

theorem isSkipped_of_names : ∀ piece ∈ names.map String.toList, isSkipped piece = false := by
  intro piece hpiece
  obtain ⟨name, hname, rfl⟩ := List.mem_map.mp hpiece
  exact (hnames name hname).isSkipped

theorem front?_ofNames : front? (ofNames names).toList = none := by
  rw [toList_ofNames]
  exact front?_joinSlash (slash_not_mem_of_names hnames) fun piece hpiece =>
    isSkipped_of_names hnames piece (List.mem_of_mem_head? hpiece)

theorem not_isAbsolute_ofNames : ¬isAbsolute (ofNames names) := by
  simp [isAbsolute_iff_front?, front?_ofNames hnames]

theorem splitOnChar_ofNames (hne : names ≠ []) :
    splitOnChar '/' (ofNames names).toList = names.map String.toList := by
  rw [toList_ofNames, joinSlash_eq_intercalate, Text.splitOnChar_eq_splitOn,
    List.splitOn_intercalate '/' (slash_not_mem_of_names hnames) (by simpa using hne)]

theorem pieces_ofNames (hne : names ≠ []) :
    pieces (ofNames names).toList = names.map String.toList := by
  rw [pieces, front?_ofNames hnames]
  exact splitOnChar_ofNames hnames hne

theorem components_ofNames : components (ofNames names) = names.map .name := by
  rw [ofNames, components_joinSlash (slash_not_mem_of_names hnames) fun piece hpiece =>
    isSkipped_of_names hnames piece (List.mem_of_mem_head? hpiece), List.filterMap_map]
  induction names with
  | nil => rfl
  | cons name names ih =>
    obtain ⟨hname, hrest⟩ := List.forall_mem_cons.mp hnames
    have hcomponent : (pieceComponent? ∘ String.toList) name = some (.name name) := hname.1
    rw [List.filterMap_cons_some hcomponent, ih hrest, List.map_cons]

end Pieces

theorem dropWhile_isSkipped_eq_self {ps : List (List Char)} (h : ∀ p ∈ ps, isSkipped p = false) :
    ps.dropWhile isSkipped = ps := by
  cases ps with
  | nil => rfl
  | cons p ps => simp [h p List.mem_cons_self]

theorem trimBack_eq_self {ps : List (List Char)} (h : ∀ p ∈ ps, isSkipped p = false) :
    trimBack ps = ps := by
  rw [trimBack, dropWhile_isSkipped_eq_self, List.reverse_reverse]
  exact fun p hp => h p (List.mem_reverse.mp hp)

/-! ## Behind another path -/

/-- A path with a slash at its end, unless it is empty. -/
def opened (base : String) : String :=
  if base.isEmpty || base.toList.getLast? == some '/' then base else base ++ "/"

theorem join_eq_append (base : String) {path : String} (hpath : ¬isAbsolute path) :
    join base path = opened base ++ path := by
  simp only [join, opened, hpath, Bool.false_eq_true, if_false]
  split <;> rfl

theorem opened_append_name (base : String) {name : String} (hname : IsName name) :
    opened (base ++ name) = base ++ name ++ "/" := by
  obtain ⟨c, hc⟩ : ∃ c, name.toList.getLast? = some c :=
    ⟨_, List.getLast?_eq_getLast_of_ne_nil hname.toList_ne_nil⟩
  have hslash : c ≠ '/' := fun h => hname.2 (h ▸ List.mem_of_getLast? hc)
  have hempty : name ≠ "" := fun h => hname.toList_ne_nil (by rw [h]; rfl)
  simp [opened, List.getLast?_append, hc, hslash, hempty]

/-- Names behind a name that is behind a path. -/
theorem join_join_ofNames (base : String) {name : String} {names : List String} (hname : IsName name)
    (hnames : ∀ name ∈ names, IsName name) (hne : names ≠ []) :
    join (join base name) (ofNames names) = join base (ofNames (name :: names)) := by
  have hall : ∀ other ∈ name :: names, IsName other := List.forall_mem_cons.mpr ⟨hname, hnames⟩
  rw [join_eq_append _ (not_isAbsolute_ofNames hnames), join_eq_append _ (not_isAbsolute_ofNames hall),
    join_eq_append _ hname.not_isAbsolute, opened_append_name _ hname, ofNames_cons name hne]
  simp only [String.append_assoc]

/-- Pieces are dropped up to those that stand for the given components; what is left may have skipped
    pieces at its front. -/
theorem dropComponents_append (ps qs : List (List Char)) :
    ∃ rest, dropComponents (ps.filterMap pieceComponent?) (ps ++ qs) = some rest ∧
      rest.dropWhile isSkipped = qs.dropWhile isSkipped := by
  induction ps with
  | nil => exact ⟨qs, rfl, rfl⟩
  | cons p ps ih =>
    cases hp : pieceComponent? p with
    | none =>
      have hskipped : isSkipped p = true := by simp [isSkipped, hp]
      obtain ⟨rest, hrest, hleft⟩ := ih
      rw [List.filterMap_cons_none hp, List.cons_append]
      -- A skipped piece is dropped together with the next component, if there is one.
      cases hcs : ps.filterMap pieceComponent? with
      | nil =>
        rw [hcs] at hrest
        obtain rfl := Option.some.inj hrest
        exact ⟨p :: (ps ++ qs), rfl, by rw [List.dropWhile_cons_of_pos hskipped, hleft]⟩
      | cons c cs =>
        rw [hcs] at hrest
        refine ⟨rest, ?_, hleft⟩
        rw [← hrest, dropComponents, List.dropWhile_cons_of_pos hskipped, dropComponents]
    | some c =>
      have hkept : ¬ isSkipped p = true := by simp [isSkipped, hp]
      obtain ⟨rest, hrest, hleft⟩ := ih
      refine ⟨rest, ?_, hleft⟩
      rw [List.filterMap_cons_some hp, List.cons_append, dropComponents,
        List.dropWhile_cons_of_neg hkept]
      simpa [hp] using hrest

theorem components_ne_nil {path : String} (h : path ≠ "") : components path ≠ [] := by
  have hne : path.toList ≠ [] := fun hnil => h (String.toList_eq_nil_iff.mp hnil)
  intro hempty
  simp only [components, List.append_eq_nil_iff, Option.toList_eq_nil_iff] at hempty
  obtain ⟨hfront, hpieces⟩ := hempty
  -- A path without a front begins with a piece that says something.
  cases hps : pieces path.toList with
  | nil =>
    have hpositive := Text.length_splitOnChar '/'
      (if (front? path.toList).isSome then path.toList.drop 1 else path.toList)
    rw [pieces] at hps
    rw [hps] at hpositive
    cases hpositive
  | cons p ps =>
    have hp := isSkipped_head?_pieces hne hfront (by rw [hps]; rfl : p ∈ (pieces path.toList).head?)
    rw [hps] at hpieces
    obtain ⟨c, hc⟩ : ∃ c, pieceComponent? p = some c := by
      simpa [isSkipped, Option.isSome_iff_exists] using hp
    simp [hc] at hpieces

/-- Names behind a base can be cut off again as they were written. -/
theorem stripBase?_join_ofNames {base : String} {names : List String} (hbase : base ≠ "")
    (hnames : ∀ name ∈ names, IsName name) (hne : names ≠ []) :
    stripBase? base (join base (ofNames names)) = some (ofNames names) := by
  have hrelative := not_isAbsolute_ofNames hnames
  obtain ⟨hfront, ps, hps, hpieces⟩ := pieces_join hbase hrelative
  have hcomponents : components base =
      (front? base.toList).toList ++ ps.filterMap pieceComponent? := by
    rcases hps with hps | hps
    · rw [components, hps]
    · rw [components, hps, List.filterMap_append]
      exact congrArg _ (List.append_nil _)
  rw [splitOnChar_ofNames hnames hne] at hpieces
  obtain ⟨rest, hrest, hleft⟩ := dropComponents_append ps (names.map String.toList)
  have hkept := isSkipped_of_names hnames
  rw [dropWhile_isSkipped_eq_self hkept] at hleft
  have htidy : (dropComponents (ps.filterMap pieceComponent?) (pieces (join base (ofNames names)).toList)).map
      (fun ps => String.ofList (joinSlash (trimBack (ps.dropWhile isSkipped)))) = some (ofNames names) := by
    rw [hpieces, hrest, Option.map_some, hleft, trimBack_eq_self hkept]
    rfl
  -- A base with no components at all would be cut off in another way.
  have hnonempty := components_ne_nil hbase
  rw [hcomponents] at hnonempty
  simp only [stripBase?, hfront, hcomponents]
  cases hhead : front? base.toList with
  | some front => simpa using htidy
  | none =>
    rw [hhead] at hnonempty
    cases hcs : ps.filterMap pieceComponent? with
    | nil => exact absurd hcs (by simpa using hnonempty)
    | cons c cs => simpa [hcs] using htidy

/-! ## Folders above -/

theorem parent?_ofNames {names : List String} {last : String}
    (hnames : ∀ name ∈ names ++ [last], IsName name) :
    parent? (ofNames (names ++ [last])) = some (ofNames names) := by
  have hkept := isSkipped_of_names hnames
  have hbefore : ∀ p ∈ names.map String.toList, isSkipped p = false :=
    fun p hp => hkept p (by simp_all)
  simp only [parent?, front?_ofNames hnames, pieces_ofNames hnames (by simp), trimBack_eq_self hkept]
  simp [trimBack_eq_self hbefore, ofNames]

theorem mem_ancestorsUpTo_ofNames_iff {names : List String} {n : Nat} {folder : String}
    (hnames : ∀ name ∈ names, IsName name) (hn : names.length ≤ n) :
    folder ∈ ancestorsUpTo n (ofNames names) ↔
      ∃ front, front <+: names ∧ front ≠ names ∧ folder = ofNames front := by
  induction n generalizing names with
  | zero =>
    obtain rfl := List.length_eq_zero_iff.mp (Nat.le_zero.mp hn)
    simp [ancestorsUpTo]
  | succ n ih =>
    rcases List.eq_nil_or_concat' names with rfl | ⟨before, last, rfl⟩
    · have hnone : parent? "" = none := rfl
      simp [ancestorsUpTo, hnone]
    · have hbefore : ∀ name ∈ before, IsName name := fun name hname => hnames name (by simp [hname])
      simp only [ancestorsUpTo, parent?_ofNames hnames, List.mem_cons,
        ih hbefore (by simpa using hn), List.prefix_concat_iff]
      -- A shorter list is the one without the last name, or shorter than that one.
      constructor
      · rintro (rfl | ⟨front, hfront, -, rfl⟩)
        · exact ⟨before, .inr List.prefix_rfl, by simp, rfl⟩
        · refine ⟨front, .inr hfront, ?_, rfl⟩
          rintro rfl
          exact absurd hfront.length_le (by simp)
      · rintro ⟨front, rfl | hfront, hne, rfl⟩
        · exact absurd rfl hne
        · by_cases hsame : front = before
          · exact .inl (by rw [hsame])
          · exact .inr ⟨front, hfront, hsame, rfl⟩

/-- The folders above a path of names are the paths of the shorter lists of names. -/
theorem mem_ancestors_ofNames_iff {names : List String} {folder : String}
    (hnames : ∀ name ∈ names, IsName name) :
    folder ∈ ancestors (ofNames names) ↔
      ∃ front, front <+: names ∧ front ≠ names ∧ folder = ofNames front := by
  apply mem_ancestorsUpTo_ofNames_iff hnames
  by_cases hne : names = []
  · simp [hne]
  · -- There is at most one name more than there are slashes.
    have hlength := Text.length_splitOnChar '/' (ofNames names).toList
    rw [splitOnChar_ofNames hnames hne, List.length_map] at hlength
    have hcount := List.count_le_length (a := '/') (l := (ofNames names).toList)
    rw [String.length_toList] at hcount
    omega

end Path

/-! ## Paths and the base of globs -/

theorem dropHere_of_head? {path : String} (h : path.toList.head? ≠ some '.') : dropHere path = path := by
  unfold dropHere
  split
  · rename_i rest hpath
    exact absurd (by rw [hpath]; rfl) h
  · rfl

theorem dropHere_of_front? {path : String} (h : Path.front? path.toList = none) : dropHere path = path := by
  unfold dropHere
  split
  · rename_i rest hpath
    rw [hpath] at h
    cases h
  · rfl

section Base

variable {base path : String} (hbase : Path.isAbsolute base)
include hbase

theorem dropHere_of_isAbsolute : dropHere base = base := by
  apply dropHere_of_head?
  have hslash : base.toList.head? = some '/' := by simpa [Path.isAbsolute] using hbase
  simp [hslash]

/-- Globs are matched with the part of a path behind an absolute base. -/
theorem innerFrom_join (hpath : ¬Path.isAbsolute path) : innerFrom base (Path.join base path) = path := by
  have hhead : path.toList.head? ≠ some '/' := by simpa [Path.isAbsolute] using hpath
  have hslash : base.toList.head? = some '/' := by simpa [Path.isAbsolute] using hbase
  obtain ⟨rest, hrest⟩ := List.head?_eq_some_iff.mp hslash
  have hdot : base ≠ "." := by
    rintro rfl
    cases hrest
  have hjoined : dropHere (Path.join base path) = Path.join base path :=
    dropHere_of_isAbsolute (Path.isAbsolute_join hbase path)
  have hslashed : (Path.join base path).toList.contains '/' = true := by
    have hfront : (Path.join base path).toList.head? = some '/' := by
      simpa [Path.isAbsolute] using Path.isAbsolute_join hbase path
    simpa using List.mem_of_mem_head? hfront
  have hdropped : Text.Pattern.dropFront base.toList (Path.join base path).toList = some path.toList ∨
      Text.Pattern.dropFront base.toList (Path.join base path).toList = some ('/' :: path.toList) := by
    rw [Path.join_eq_append _ hpath, Path.opened]
    split
    · rw [String.toList_append, Text.Pattern.dropFront_append]
      exact .inl rfl
    · rw [String.toList_append, String.toList_append, List.append_assoc, Text.Pattern.dropFront_append]
      exact .inr rfl
  simp only [innerFrom, dropHere_of_isAbsolute hbase, hjoined, hdot, hslashed, decide_false,
    Bool.not_true, Bool.or_false, Bool.false_eq_true, if_false]
  rcases hdropped with hdropped | hdropped
  · rw [hdropped]
    split
    · rename_i hnone
      cases hnone
    · rename_i others hothers
      exact absurd (by rw [Option.some.inj hothers]; rfl) hhead
    · rename_i others _ hothers
      rw [← Option.some.inj hothers, String.ofList_toList]
  · rw [hdropped]
    exact String.ofList_toList

/-- A path that is given from an absolute base on does not start like it. -/
theorem innerFrom_of_front? (hpath : Path.front? path.toList = none) : innerFrom base path = path := by
  have hslash : base.toList.head? = some '/' := by simpa [Path.isAbsolute] using hbase
  obtain ⟨rest, hrest⟩ := List.head?_eq_some_iff.mp hslash
  simp only [innerFrom, dropHere_of_isAbsolute hbase, dropHere_of_front? hpath]
  split
  · rfl
  · have hnone : Text.Pattern.dropFront base.toList path.toList = none := by
      rw [hrest]
      cases htext : path.toList with
      | nil => rfl
      | cons first others =>
        have hfirst : first ≠ '/' := by
          rintro rfl
          rw [htext] at hpath
          cases hpath
        simp [Text.Pattern.dropFront, hfirst.symm]
    rw [hnone]

end Base

end CodeOutline
