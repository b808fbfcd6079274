import CodeOutline.Path
import CodeOutline.Proofs.Text.Lines

/-! # The characters of paths

Cutting a path into pieces, dropping some of them and joining the others brings in no characters but
slashes, and dots for the components that are written with dots.  So a path that stands on one line
does so as well when it is seen from a folder.
-/

namespace CodeOutline

namespace Text

theorem mem_of_mem_splitOnChar {sep c : Char} {text piece : List Char}
    (h : piece ∈ splitOnChar sep text) (hc : c ∈ piece) : c ∈ text := by
  induction text generalizing piece with
  | nil =>
    obtain rfl : piece = [] := by simpa [splitOnChar] using h
    cases hc
  | cons d rest ih =>
    simp only [splitOnChar] at h
    split at h
    · cases h with
      | head => cases hc
      | tail _ h => exact List.mem_cons_of_mem d (ih h hc)
    · split at h
      · obtain rfl : piece = [d] := by simpa using h
        simp_all
      · rename_i first others heq
        rw [heq] at ih
        cases h with
        | head =>
          cases hc with
          | head => exact List.mem_cons_self
          | tail _ hc => exact List.mem_cons_of_mem d (ih List.mem_cons_self hc)
        | tail _ h => exact List.mem_cons_of_mem d (ih (List.mem_cons_of_mem _ h) hc)

theorem mem_of_mem_intercalate {α : Type} {sep : List α} {pieces : List (List α)} {c : α}
    (h : c ∈ sep.intercalate pieces) : c ∈ sep ∨ ∃ piece ∈ pieces, c ∈ piece := by
  induction pieces with
  | nil => cases h
  | cons first rest ih =>
    cases rest with
    | nil => exact .inr ⟨first, List.mem_cons_self, by simpa using h⟩
    | cons second rest =>
      rw [List.intercalate_cons_cons, List.mem_append, List.mem_append] at h
      rcases h with (hfirst | hsep) | hrest
      · exact .inr ⟨first, List.mem_cons_self, hfirst⟩
      · exact .inl hsep
      · rcases ih hrest with hsep | ⟨piece, hpiece, hc⟩
        · exact .inl hsep
        · exact .inr ⟨piece, List.mem_cons_of_mem _ hpiece, hc⟩

end Text

namespace Path

/-! ## Pieces -/

theorem joinSlash_eq_intercalate : ∀ ps : List (List Char), joinSlash ps = ['/'].intercalate ps
  | [] => rfl
  | [piece] => by simp [joinSlash]
  | piece :: second :: rest => by
    rw [joinSlash, joinSlash_eq_intercalate (second :: rest), List.intercalate_cons_cons]
    · simp
    · simp

theorem mem_of_mem_pieces {text piece : List Char} {c : Char} (h : piece ∈ pieces text)
    (hc : c ∈ piece) : c ∈ text := by
  have hmem := Text.mem_of_mem_splitOnChar h hc
  split at hmem
  · exact List.mem_of_mem_drop hmem
  · exact hmem

theorem trimBack_subset (ps : List (List Char)) : trimBack ps ⊆ ps := by
  intro piece hpiece
  rw [trimBack, List.mem_reverse] at hpiece
  exact List.mem_reverse.mp ((List.dropWhile_sublist _).subset hpiece)

theorem dropComponents_subset {cs : List Component} {ps rest : List (List Char)}
    (h : dropComponents cs ps = some rest) : rest ⊆ ps := by
  induction cs generalizing ps with
  | nil =>
    cases h
    exact List.Subset.refl _
  | cons c cs ih =>
    have hsub : ps.dropWhile isSkipped ⊆ ps := (List.dropWhile_sublist _).subset
    simp only [dropComponents] at h
    split at h
    · cases h
    · rename_i first others heq
      rw [heq] at hsub
      split at h
      · exact fun piece hpiece => hsub (List.mem_cons_of_mem _ (ih h hpiece))
      · cases h

theorem mem_of_mem_joinSlash_trimBack {ps : List (List Char)} {c : Char}
    (h : c ∈ joinSlash (trimBack ps)) : c = '/' ∨ ∃ piece ∈ ps, c ∈ piece := by
  rw [joinSlash_eq_intercalate] at h
  rcases Text.mem_of_mem_intercalate h with hslash | ⟨piece, hpiece, hc⟩
  · exact .inl (List.mem_singleton.mp hslash)
  · exact .inr ⟨piece, trimBack_subset ps hpiece, hc⟩

/-! ## Paths without their base -/

/-- What is left of a path has its characters, and slashes. -/
theorem mem_of_mem_stripBase? {base path rest : String} {c : Char}
    (h : stripBase? base path = some rest) (hc : c ∈ rest.toList) : c = '/' ∨ c ∈ path.toList := by
  have htidy : ∀ {ps : List (List Char)}, ps ⊆ pieces path.toList →
      c ∈ joinSlash (trimBack ps) → c = '/' ∨ c ∈ path.toList := by
    intro ps hsub hmem
    rcases mem_of_mem_joinSlash_trimBack hmem with hslash | ⟨piece, hpiece, hc⟩
    · exact .inl hslash
    · exact .inr (mem_of_mem_pieces (hsub hpiece) hc)
  have hdropped : ∀ {cs : List Component},
      (dropComponents cs (pieces path.toList)).map (fun ps =>
        String.ofList (joinSlash (trimBack (ps.dropWhile isSkipped)))) = some rest →
      c = '/' ∨ c ∈ path.toList := by
    intro cs hmap
    obtain ⟨ps, hps, rfl⟩ := Option.map_eq_some_iff.mp hmap
    rw [String.toList_ofList] at hc
    exact htidy (fun piece hpiece =>
      dropComponents_subset hps ((List.dropWhile_sublist _).subset hpiece)) hc
  unfold stripBase? at h
  dsimp only at h
  split at h
  · cases h
    exact htidy (List.Subset.refl _) (by simpa using hc)
  · cases h
    rw [String.toList_ofList, List.mem_append] at hc
    rcases hc with hfront | hbody
    · exact .inr (List.mem_of_mem_take hfront)
    · exact htidy (List.Subset.refl _) hbody
  · split at h
    · exact hdropped h
    · cases h
  · exact hdropped h

theorem mem_of_mem_component {path : String} {component : Component} {c : Char}
    (h : component ∈ components path) (hc : c ∈ component.text.toList) :
    c = '/' ∨ c = '.' ∨ c ∈ path.toList := by
  cases component with
  | root => exact .inl (List.mem_singleton.mp hc)
  | here => exact .inr (.inl (List.mem_singleton.mp hc))
  | parent =>
    have : c = '.' ∨ c = '.' := by simpa [Component.text] using hc
    exact .inr (.inl (by simpa using this))
  | name text =>
    -- A name is a piece of the path; what stands at its front is no name.
    rw [components, List.mem_append] at h
    rcases h with hfront | hpiece
    · unfold front? at hfront
      split at hfront <;> simp at hfront
    · obtain ⟨piece, hmem, hname⟩ := List.mem_filterMap.mp hpiece
      unfold pieceComponent? at hname
      split at hname
      · cases hname
      · split at hname
        · cases hname
        · cases hname
          exact .inr (.inr (mem_of_mem_pieces hmem (by simpa [Component.text] using hc)))

/-- A relative path has the characters of the path, slashes and dots. -/
theorem mem_of_mem_relativeTo {root path : String} {c : Char}
    (h : c ∈ (relativeTo root path).toList) : c = '/' ∨ c = '.' ∨ c ∈ path.toList := by
  unfold relativeTo at h
  split at h
  · exact .inr (.inr h)
  · rename_i rest hstrip
    rw [String.toList_intercalate] at h
    rcases Text.mem_of_mem_intercalate h with hslash | ⟨text, htext, hc⟩
    · exact .inl (List.mem_singleton.mp hslash)
    · simp only [List.map_map, List.mem_map, Function.comp_apply] at htext
      obtain ⟨component, hcomponent, rfl⟩ := htext
      rcases mem_of_mem_component hcomponent hc with hslash | hdot | hrest
      · exact .inl hslash
      · exact .inr (.inl hdot)
      · rcases mem_of_mem_stripBase? hstrip hrest with hslash | hpath
        · exact .inl hslash
        · exact .inr (.inr hpath)

theorem newline_not_mem_relativeTo (root : String) {path : String} (h : '\n' ∉ path.toList) :
    '\n' ∉ (relativeTo root path).toList := by
  intro hmem
  rcases mem_of_mem_relativeTo hmem with hslash | hdot | hpath
  · cases hslash
  · cases hdot
  · exact h hpath

end Path

end CodeOutline
