import CodeOutline.Ignore.Level
import Mathlib.Data.List.Basic

/-! # What ignore rules say

The last rule that applies to a path decides, so that of two lists of rules one behind the other the
second one is asked first (`verdict?_append`).  Everything else about a list of rules is said by what a
further rule changes.  A rule that ignores paths turns verdicts into `ignore` or leaves them alone,
wherever it is put in (`stricter_insert`).

The rules of several lines are put to use together or not at all.  What is put to use with a list of lines
is put to use with fewer of them as well (`Usable.sublist`).
-/

namespace CodeOutline

namespace Rule

open scoped List

/-! ## Lines that keep -/

/-- A line that keeps what it stands for. -/
def Negated (line : String) : Prop :=
  line.toList.head? = some '!'

instance (line : String) : Decidable (Negated line) :=
  inferInstanceAs (Decidable (_ = _))

theorem trimLine_isPrefix (line : List Char) : trimLine line <+: line := by
  unfold trimLine
  split
  · exact List.prefix_refl line
  · rw [← List.reverse_suffix, List.reverse_reverse]
    exact List.dropWhile_suffix _

theorem fst_readMarks (line : List Char) :
    (readMarks line).1 = if line.head? = some '!' then .keep else .ignore := by
  unfold readMarks
  split
  · rfl
  · rfl
  · rfl
  · rename_i hkeep
    have hhead : line.head? ≠ some '!' := by
      intro h
      obtain ⟨rest, rfl⟩ := List.head?_eq_some_iff.mp h
      exact hkeep rest rfl
    simp [hhead]

/-- Only a line that starts with an exclamation mark keeps paths. -/
theorem verdict_of_ofLine? {line : String} {rule : Rule} (h : ofLine? line = some rule) :
    rule.verdict = if Negated line then .keep else .ignore := by
  unfold ofLine? at h
  dsimp only at h
  split at h
  · cases h
  split at h
  · cases h
  rename_i hne
  -- Blanks are dropped at the end, and the line does not become empty by that.
  have hhead : (trimLine line.toList).head? = line.toList.head? := by
    obtain ⟨rest, hrest⟩ := trimLine_isPrefix line.toList
    calc (trimLine line.toList).head?
        = (trimLine line.toList ++ rest).head? :=
          (List.head?_append_of_ne_nil _ (by simpa using hne)).symm
      _ = line.toList.head? := by rw [hrest]
  obtain ⟨glob, -, rfl⟩ := Option.map_eq_some_iff.mp h
  simp only [fst_readMarks, hhead]
  rfl

/-! ## Lines that can be put to use -/

/-- The rules of the lines, whether they can be put to use or not. -/
def written (lines : List String) : List Rule :=
  lines.filterMap ofLine?

/-- The rules of the lines can be put to use together. -/
def Usable (lines : List String) : Prop :=
  areUsable ((written lines).map Rule.glob) = true

instance (lines : List String) : Decidable (Usable lines) :=
  inferInstanceAs (Decidable (_ = _))

theorem ofLines_of_usable {lines : List String} (h : Usable lines) : ofLines lines = written lines :=
  if_pos h

theorem written_append (lines others : List String) :
    written (lines ++ others) = written lines ++ written others :=
  List.filterMap_append

theorem foldl_size_le {globs others : List Glob} (backwards : Bool) (h : others <+ globs) {a b : Nat}
    (hab : a ≤ b) :
    others.foldl (fun total glob => total + glob.size backwards) a ≤
      globs.foldl (fun total glob => total + glob.size backwards) b := by
  induction h generalizing a b with
  | slnil => exact hab
  | cons glob _ ih => exact ih (Nat.le_add_right_of_le hab)
  | cons_cons glob _ ih => exact ih (Nat.add_le_add_right hab _)

theorem choiceSize_le {n m : Nat} (h : n ≤ m) : Automaton.choiceSize n ≤ Automaton.choiceSize m := by
  simp only [Automaton.choiceSize, Automaton.branchSize]
  split <;> split <;> omega

theorem fits_sublist {globs others : List Glob} (h : others <+ globs) (hfits : Glob.fits globs = true) :
    Glob.fits others = true := by
  have hsize : ∀ backwards, Glob.sizeOfAll backwards others ≤ Glob.sizeOfAll backwards globs := by
    intro backwards
    apply foldl_size_le backwards h
    have := choiceSize_le h.length_le
    omega
  simp only [Glob.fits, Bool.and_eq_true, decide_eq_true_eq] at hfits ⊢
  have := hsize false
  have := hsize true
  omega

theorem areUsable_sublist {globs others : List Glob} (h : others <+ globs)
    (husable : areUsable globs = true) : areUsable others = true := by
  simp only [areUsable, Glob.areWithinSize, List.partition_eq_filter_filter, Bool.and_eq_true,
    List.all_eq_true] at husable ⊢
  obtain ⟨hdepth, hsingle, hshared⟩ := husable
  have hrest := h.filter fun glob => !glob.isDirect
  refine ⟨fun glob hglob => hdepth glob (h.subset hglob), fun glob hglob => ?_, ?_⟩
  · exact hsingle glob ((hrest.filter Glob.hasExtension).subset hglob)
  · exact fits_sublist (hrest.filter _) hshared

theorem Usable.sublist {lines others : List String} (h : Usable lines) (hsub : others <+ lines) :
    Usable others :=
  areUsable_sublist ((hsub.filterMap ofLine?).map Rule.glob) h

/-! ## The verdict about one path -/

section Verdicts

variable {rules others : List Rule} {path : String} {isFolder : Bool}

theorem verdict?_append (rules others : List Rule) (path : String) (isFolder : Bool) :
    verdict? (rules ++ others) path isFolder =
      (verdict? others path isFolder).or (verdict? rules path isFolder) := by
  simp only [verdict?, List.reverse_append, List.find?_append]
  cases others.reverse.find? fun rule => rule.applies path.toUTF8.toList isFolder <;> rfl

theorem verdict?_singleton (rule : Rule) (path : String) (isFolder : Bool) :
    verdict? [rule] path isFolder =
      if rule.applies path.toUTF8.toList isFolder then some rule.verdict else none := by
  simp only [verdict?, List.reverse_singleton, List.find?_singleton]
  split <;> rfl

/-- A verdict is that of some rule. -/
theorem exists_mem_of_verdict? {verdict : Verdict} (h : verdict? rules path isFolder = some verdict) :
    ∃ rule ∈ rules, rule.verdict = verdict := by
  obtain ⟨rule, hfind, hverdict⟩ := Option.map_eq_some_iff.mp h
  exact ⟨rule, List.mem_reverse.mp (List.mem_of_find?_eq_some hfind), hverdict⟩

/-- Some rule applies to the path. -/
def Hits (rules : List Rule) (path : String) (isFolder : Bool) : Prop :=
  ∃ rule ∈ rules, rule.applies path.toUTF8.toList isFolder = true

theorem verdict?_eq_none_iff : verdict? rules path isFolder = none ↔ ¬ Hits rules path isFolder := by
  simp [verdict?, Hits]

/-- The rules ignore paths and keep none. -/
def IgnoreOnly (rules : List Rule) : Prop :=
  ∀ rule ∈ rules, rule.verdict = .ignore

theorem IgnoreOnly.verdict?_eq_iff (h : IgnoreOnly rules) :
    verdict? rules path isFolder = some .ignore ↔ Hits rules path isFolder := by
  constructor
  · intro hverdict
    by_contra hmiss
    simp [verdict?_eq_none_iff.mpr hmiss] at hverdict
  · intro hhits
    cases hverdict : verdict? rules path isFolder with
    | none => exact absurd hhits (verdict?_eq_none_iff.mp hverdict)
    | some verdict =>
      obtain ⟨rule, hrule, rfl⟩ := exists_mem_of_verdict? hverdict
      rw [h rule hrule]

theorem ignoreOnly_written {lines : List String} (h : ∀ line ∈ lines, ¬ Negated line) :
    IgnoreOnly (written lines) := by
  intro rule hrule
  obtain ⟨line, hline, hread⟩ := List.mem_filterMap.mp hrule
  rw [verdict_of_ofLine? hread, if_neg (h line hline)]

theorem ignoreOnly_ofLines {lines : List String} (h : ∀ line ∈ lines, ¬ Negated line) :
    IgnoreOnly (ofLines lines) := by
  unfold ofLines
  dsimp only
  split
  · exact ignoreOnly_written h
  · intro rule hrule
    cases hrule

/-! ## Further rules -/

/-- The other rules say the same or else `ignore`. -/
def Stricter (rules others : List Rule) : Prop :=
  ∀ path isFolder, verdict? others path isFolder = verdict? rules path isFolder ∨
    verdict? others path isFolder = some .ignore

/-- Rules that only ignore, put in anywhere among others. -/
theorem stricter_insert {added : List Rule} (h : IgnoreOnly added) (before after : List Rule) :
    Stricter (before ++ after) (before ++ (added ++ after)) := by
  intro path isFolder
  simp only [verdict?_append]
  cases hafter : verdict? after path isFolder with
  | some verdict => simp
  | none =>
    cases hadded : verdict? added path isFolder with
    | none => simp
    | some verdict =>
      obtain ⟨rule, hrule, rfl⟩ := exists_mem_of_verdict? hadded
      simp [h rule hrule]

theorem Stricter.refl (rules : List Rule) : Stricter rules rules :=
  fun _ _ => .inl rfl

theorem Stricter.trans {third : List Rule} (h : Stricter rules others) (h' : Stricter others third) :
    Stricter rules third := by
  intro path isFolder
  rcases h' path isFolder with hsame | hignore
  · rw [hsame]
    exact h path isFolder
  · exact .inr hignore

theorem Stricter.append (h : Stricter rules others) (more : List Rule) :
    Stricter (rules ++ more) (others ++ more) := by
  intro path isFolder
  simp only [verdict?_append]
  cases verdict? more path isFolder with
  | none => exact h path isFolder
  | some verdict => exact .inl rfl

/-- Adding a rule once more changes nothing if all rules since then have its verdict. -/
theorem verdict?_append_repeated {rule : Rule} {between : List Rule}
    (h : ∀ other ∈ between, other.verdict = rule.verdict) (before : List Rule) :
    verdict? (before ++ rule :: between ++ [rule]) path isFolder =
      verdict? (before ++ rule :: between) path isFolder := by
  rw [verdict?_append _ [rule], verdict?_singleton]
  split
  · rename_i happlies
    -- The rule applies, so that it or one of those behind it decided before.
    rw [List.append_cons, verdict?_append, verdict?_append, verdict?_singleton, if_pos happlies]
    cases hbetween : verdict? between path isFolder with
    | none => rfl
    | some verdict =>
      obtain ⟨other, hother, rfl⟩ := exists_mem_of_verdict? hbetween
      simp [h other hother]
  · rfl

theorem verdict?_written_repeated {line : String} {between : List String}
    (h : ∀ other ∈ between, (Negated other ↔ Negated line)) (before : List String) :
    verdict? (written (before ++ line :: between ++ [line])) path isFolder =
      verdict? (written (before ++ line :: between)) path isFolder := by
  cases hline : ofLine? line with
  | none => simp [written, hline]
  | some rule =>
    have hbetween : ∀ other ∈ written between, other.verdict = rule.verdict := by
      intro other hother
      obtain ⟨source, hsource, hread⟩ := List.mem_filterMap.mp hother
      simp only [verdict_of_ofLine? hread, verdict_of_ofLine? hline, h source hsource]
    have hrepeated : verdict? _ path isFolder = _ := verdict?_append_repeated hbetween (written before)
    simpa [written, hline] using hrepeated

/-! ## The verdict about a path or a folder above it -/

theorem verdictUp?_eq_findSome? (rules : List Rule) (path : String) (isFolder : Bool) :
    verdictUp? rules path isFolder =
      ((path, isFolder) :: (Path.ancestors path).map (·, true)).findSome? fun level =>
        verdict? rules level.1 level.2 := by
  rw [List.findSome?_cons, List.findSome?_map]
  unfold verdictUp?
  cases verdict? rules path isFolder <;> rfl

theorem Stricter.verdictUp? (h : Stricter rules others)
    (hignored : verdictUp? rules path isFolder = some .ignore) :
    verdictUp? others path isFolder = some .ignore := by
  rw [verdictUp?_eq_findSome?] at hignored ⊢
  generalize (path, isFolder) :: (Path.ancestors path).map (·, true) = levels at hignored ⊢
  -- The nearest level with a verdict is the same, or a nearer one ignores by now.
  induction levels with
  | nil => cases hignored
  | cons level levels ih =>
    rw [List.findSome?_cons] at hignored ⊢
    rcases h level.1 level.2 with hsame | hignore
    · rw [hsame]
      cases hverdict : verdict? rules level.1 level.2 with
      | none =>
        rw [hverdict] at hignored
        exact ih hignored
      | some verdict =>
        rw [hverdict] at hignored
        exact hignored
    · rw [hignore]

theorem IgnoreOnly.verdictUp?_eq_iff (h : IgnoreOnly rules) :
    verdictUp? rules path isFolder = some .ignore ↔
      Hits rules path isFolder ∨ ∃ folder ∈ Path.ancestors path, Hits rules folder true := by
  have hlevels : ∀ levels : List (String × Bool),
      (levels.findSome? fun level => verdict? rules level.1 level.2) = some .ignore ↔
        ∃ level ∈ levels, Hits rules level.1 level.2 := by
    intro levels
    constructor
    · intro hfound
      obtain ⟨level, hlevel, hverdict⟩ := List.exists_of_findSome?_eq_some hfound
      exact ⟨level, hlevel, h.verdict?_eq_iff.mp hverdict⟩
    · rintro ⟨level, hlevel, hhits⟩
      have hsome : (levels.findSome? fun level => verdict? rules level.1 level.2).isSome = true := by
        rw [List.findSome?_isSome_iff]
        exact ⟨level, hlevel, by rw [h.verdict?_eq_iff.mpr hhits]; rfl⟩
      obtain ⟨verdict, hfound⟩ := Option.isSome_iff_exists.mp hsome
      obtain ⟨nearest, -, hverdict⟩ := List.exists_of_findSome?_eq_some hfound
      obtain ⟨rule, hrule, rfl⟩ := exists_mem_of_verdict? hverdict
      rw [hfound, h rule hrule]
  rw [verdictUp?_eq_findSome?, hlevels]
  simp

end Verdicts

end Rule

end CodeOutline
