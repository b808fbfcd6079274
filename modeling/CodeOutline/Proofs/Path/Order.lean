import CodeOutline.Path

/-! # The order of paths

Paths are compared by their components, and components by their kind and then by how they are written.
Both are lexicographic, so that the comparison is a linear order on lists of components: two paths stand
at the same place in it exactly if they have the same components, however they are written.
-/

namespace CodeOutline.Path

theorem Component.compare_eq_then (a b : Component) :
    a.compare b = (Ord.compare a.rank b.rank).then (Ord.compare a.text b.text) := by
  -- Kinds that differ decide by themselves, and of one kind only names are written in different ways.
  cases a with
  | name s =>
    cases b with
    | name t => simp [Component.compare, rank, text]
    | root | here | parent => rfl
  | root | here | parent => cases b <;> rfl

theorem Component.compare_eq_compareLex :
    Component.compare = compareLex (compareOn rank) (compareOn text) := by
  funext a b
  exact compare_eq_then a b

instance : Std.TransCmp Component.compare :=
  Component.compare_eq_compareLex ▸ inferInstance

instance : Std.LawfulEqCmp Component.compare where
  eq_of_compare {a b} h := by
    rw [Component.compare_eq_then, Ordering.then_eq_eq] at h
    have hrank := Std.LawfulEqCmp.eq_of_compare h.1
    have htext := Std.LawfulEqCmp.eq_of_compare h.2
    cases a <;> cases b <;> simp_all [Component.rank, Component.text]

theorem compareComponents_eq_compareLex (as bs : List Component) :
    compareComponents as bs = List.compareLex Component.compare as bs := by
  induction as generalizing bs with
  | nil => cases bs <;> rfl
  | cons a as ih =>
    cases bs with
    | nil => rfl
    | cons b bs => rw [compareComponents, List.compareLex_cons_cons, ih]

theorem compareComponents_self (cs : List Component) : compareComponents cs cs = .eq := by
  rw [compareComponents_eq_compareLex]
  exact Std.ReflCmp.compare_self

theorem le_iff_isLE {a b : String} :
    le a b ↔ (List.compareLex Component.compare (components a) (components b)).isLE := by
  rw [le, compareComponents_eq_compareLex]
  cases List.compareLex Component.compare (components a) (components b) <;> simp

theorem le_trans {a b c : String} (hab : le a b) (hbc : le b c) : le a c := by
  rw [le_iff_isLE] at *
  exact Std.TransCmp.isLE_trans hab hbc

theorem le_total (a b : String) : le a b || le b a := by
  have hswap : List.compareLex Component.compare (components b) (components a) =
      (List.compareLex Component.compare (components a) (components b)).swap :=
    Std.OrientedCmp.eq_swap
  rw [Bool.or_eq_true, le_iff_isLE, le_iff_isLE, hswap]
  cases List.compareLex Component.compare (components a) (components b) <;> simp

/-- Only paths with the same components stand at the same place in the order. -/
theorem lt_of_le_of_ne {a b : String} (hle : le a b) (hne : components a ≠ components b) :
    compareComponents (components a) (components b) = .lt := by
  rw [le_iff_isLE] at hle
  rw [compareComponents_eq_compareLex]
  cases horder : List.compareLex Component.compare (components a) (components b) with
  | lt => rfl
  | eq => exact absurd (Std.LawfulEqCmp.eq_of_compare horder) hne
  | gt => simp [horder] at hle

theorem pairwise_mergeSort_le (paths : List String) :
    (paths.mergeSort le).Pairwise fun a b => le a b = true := by
  apply List.pairwise_mergeSort
  · intro a b c hab hbc
    exact le_trans hab hbc
  · exact le_total

/-! ## Sorting fewer paths -/

open scoped List

theorem exists_mergeSort_cons (path : String) (paths : List String) :
    ∃ before after, (path :: paths).mergeSort le = before ++ path :: after ∧
      paths.mergeSort le = before ++ after ∧ ∀ other, other ∈ before → !le path other := by
  apply List.mergeSort_cons
  · intro a b c hab hbc
    exact le_trans hab hbc
  · exact le_total

/-- A path is sorted in behind those that come before it, and before all others. -/
theorem mergeSort_cons_eq (path : String) (paths : List String) :
    (path :: paths).mergeSort le =
      (paths.mergeSort le).filter (!le path ·) ++ path :: (paths.mergeSort le).filter (le path ·) := by
  obtain ⟨before, after, hcons, hrest, hbefore⟩ := exists_mergeSort_cons path paths
  have hafter : ∀ other ∈ after, le path other = true := by
    have hsorted := pairwise_mergeSort_le (path :: paths)
    rw [hcons] at hsorted
    exact (List.pairwise_cons.mp (List.pairwise_append.mp hsorted).2.1).1
  have hnone : before.filter (le path ·) = [] ∧ after.filter (!le path ·) = [] := by
    simp only [List.filter_eq_nil_iff]
    exact ⟨fun other hother => by simpa using hbefore other hother, fun other hother => by
      simp [hafter other hother]⟩
  rw [hcons, hrest, List.filter_append, List.filter_append, hnone.1, hnone.2,
    List.filter_eq_self.mpr hbefore, List.filter_eq_self.mpr hafter, List.append_nil, List.nil_append]

theorem mergeSort_sublist {paths others : List String} (h : others <+ paths) :
    others.mergeSort le <+ paths.mergeSort le := by
  induction h with
  | slnil => exact List.Sublist.refl _
  | cons path _ ih =>
    obtain ⟨before, after, hcons, hrest, -⟩ := exists_mergeSort_cons path _
    rw [hcons]
    exact (hrest ▸ ih).middle path
  | cons_cons path _ ih =>
    rw [mergeSort_cons_eq, mergeSort_cons_eq]
    exact (ih.filter _).append ((ih.filter _).cons_cons path)

/-- In ascending order the same paths can be listed in one way only. -/
theorem eq_of_pairwise_lt {paths others : List String}
    (hpaths : paths.Pairwise fun a b => compareComponents (components a) (components b) = .lt)
    (hothers : others.Pairwise fun a b => compareComponents (components a) (components b) = .lt)
    (h : ∀ path, path ∈ paths ↔ path ∈ others) : paths = others := by
  have hnodup : ∀ {list : List String},
      (list.Pairwise fun a b => compareComponents (components a) (components b) = .lt) → list.Nodup := by
    intro list hlist
    refine hlist.imp fun hlt heq => ?_
    rw [heq, compareComponents_self] at hlt
    cases hlt
  refine List.Perm.eq_of_pairwise (fun a b _ _ hab hba => ?_) hpaths hothers
    ((List.perm_ext_iff_of_nodup (hnodup hpaths) (hnodup hothers)).mpr h)
  rw [compareComponents_eq_compareLex] at hab hba
  exact absurd hba (Std.OrientedCmp.not_lt_of_lt hab)

end CodeOutline.Path
