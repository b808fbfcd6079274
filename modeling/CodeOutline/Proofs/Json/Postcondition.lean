import CodeOutline.Proofs.Json.Agreement

/-! # What readers yield

`Yields P reader` says that every value the reader gives has the property `P`, whatever the text.  The
readers of `CodeOutline.Json.Direct` pass such properties on: a list consists of what its element reader
yields, and a record is made of what the readers of its fields yield.  As nesting is counted down from
the outside, properties may depend on the nesting that is left.
-/

namespace CodeOutline.Json.Reader

variable {α β σ : Type} {P : α → Prop}

/-- Whatever `reader` gives has the property. -/
def Yields (P : α → Prop) (reader : Reader α) : Prop :=
  ∀ ⦃text rest : List Char⦄ ⦃a : α⦄, reader text = .ok (a, rest) → P a

theorem yields_pure {a : α} (h : P a) : Yields P (pure a) := by
  intro text rest b hread
  obtain ⟨rfl, -⟩ := pure_eq_ok_iff.mp hread
  exact h

theorem yields_fail (P : α → Prop) (fault : Fault) : Yields P (fail fault) :=
  fun _ _ _ hread => absurd hread fail_ne_ok

theorem yields_true (reader : Reader α) : Yields (fun _ => True) reader :=
  fun _ _ _ _ => trivial

theorem Yields.bind {Q : β → Prop} {reader : Reader α} {next : α → Reader β} (h : Yields P reader)
    (hnext : ∀ a, P a → Yields Q (next a)) : Yields Q (reader >>= next) := by
  intro text rest b hread
  obtain ⟨a, mid, hfirst, hlast⟩ := bind_eq_ok_iff.mp hread
  exact hnext a (h hfirst) hlast

/-- A reader that looks first may be taken apart by what it sees. -/
theorem yields_peek {next : Option Char → Reader α} (h : ∀ c?, Yields P (next c?)) :
    Yields P (peek >>= next) :=
  (yields_true peek).bind fun c? _ => h c?

theorem yields_refuse (P : α → Prop) (c : Char) : Yields P (refuse c) := by
  intro text rest a hread
  obtain ⟨fault, hfault⟩ := gives_refuse (α := α) c text rest
  rw [hfault] at hread
  cases hread

/-! ## Scalars and lists -/

theorem yields_word32 : Yields (· ≤ Word.max32) word32 := by
  unfold word32
  refine yields_peek fun c? => ?_
  cases c? with
  | none => exact yields_fail _ _
  | some c =>
    dsimp only
    split
    · refine (yields_true _).bind fun json _ => ?_
      cases json with
      | natural k =>
        dsimp only
        split
        · exact yields_pure ‹_›
        · exact yields_fail _ _
      | _ => exact yields_fail _ _
    · exact yields_refuse _ _

theorem yields_nullable {reader : Reader α} (h : Yields P reader) :
    Yields (fun a? => ∀ a ∈ a?, P a) (nullable reader) := by
  unfold nullable
  refine yields_peek fun c? => ?_
  split
  · exact (yields_true _).bind fun _ _ => yields_pure (by simp)
  · exact h.bind fun a ha => yields_pure (by simpa using ha)

theorem forall_of_elements {item : Reader α} (h : Yields P item) {first : Bool}
    {text rest : List Char} {xs : List α} (hxs : Elements item first text xs rest) :
    ∀ x ∈ xs, P x := by
  induction hxs with
  | done => simp
  | more _ _ _ hitem _ ih => exact List.forall_mem_cons.mpr ⟨h hitem, ih⟩

theorem yields_list {P : Nat → α → Prop} {Q : Nat → List α → Prop} {item : Nat → Reader α}
    (hitem : ∀ m, Yields (P m) (item m)) (hlist : ∀ m xs, (∀ x ∈ xs, P m x) → Q (m + 1) xs) (n : Nat) :
    Yields (Q n) (list n item) := by
  unfold list
  refine yields_peek fun c? => ?_
  cases c? with
  | none => exact yields_fail _ _
  | some c =>
    dsimp only
    split
    · cases n with
      | zero => exact yields_fail _ _
      | succ m =>
        refine (yields_true _).bind fun _ _ => ?_
        intro text rest xs hread
        exact hlist m xs (forall_of_elements (hitem m) (elements_eq_ok_iff.mp hread).2)
    · exact yields_refuse _ _

/-! ## Records -/

theorem yields_field? {reader : Reader α} (first : Bool) (h : Yields P reader) :
    Yields (fun a? => ∀ a ∈ a?, P a) (field? first reader) := by
  unfold field?
  refine (yields_true _).bind fun more _ => ?_
  split
  · exact h.bind fun a ha => yields_pure (by simpa using ha)
  · exact yields_pure (by simp)

theorem yields_field {reader : Reader α} (first : Bool) (h : Yields P reader) :
    Yields P (field first reader) := by
  unfold field
  refine (yields_field? first h).bind fun a? ha => ?_
  cases a? with
  | some a => exact yields_pure (ha a rfl)
  | none => exact yields_fail _ _

theorem yields_once {reader : Reader α} (before : Option α) (h : Yields P reader) :
    Yields (fun a? => ∀ a ∈ a?, P a) (once before reader) := by
  unfold once
  cases before with
  | some _ => exact yields_fail _ _
  | none =>
    refine (yields_true _).bind fun _ _ => ?_
    exact h.bind fun a ha => yields_pure (by simpa using ha)

theorem yields_otherMember {D : σ → Prop} {draft : σ} (h : D draft) : Yields D (otherMember draft) :=
  (yields_true _).bind fun _ _ => (yields_true _).bind fun _ _ => yields_pure h

/-- What every member keeps holds of the draft at the end. -/
theorem yields_membersIn {D : σ → Prop} {member : σ → String → Reader σ}
    (hmember : ∀ draft k, D draft → Yields D (member draft k)) (rounds : List Char) (first : Bool)
    {draft : σ} (h : D draft) : Yields D (membersIn member rounds first draft) := by
  induction rounds generalizing first draft with
  | nil => exact yields_fail _ _
  | cons round rounds ih =>
    unfold membersIn
    refine (yields_true _).bind fun more _ => ?_
    split
    · refine (yields_true _).bind fun k _ => ?_
      exact (hmember draft k h).bind fun next hnext => ih false hnext
    · exact yields_pure h

theorem yields_members {D : σ → Prop} {member : σ → String → Reader σ}
    (hmember : ∀ draft k, D draft → Yields D (member draft k)) {start : σ} (h : D start) :
    Yields D (members member start) := by
  unfold members
  refine (yields_true _).bind fun _ _ => ?_
  refine (yields_membersIn hmember _ _ h).bind fun gathered hgathered => ?_
  exact (yields_true _).bind fun _ _ => yields_pure hgathered

/-- A record has what its fields make it have, in whichever way it is written. -/
theorem yields_record {P : Nat → α → Prop} {D : Nat → σ → Prop} {inOrder : Nat → Reader α}
    {member : Nat → σ → String → Reader σ} {start : σ} {finish : σ → Option α}
    (harray : ∀ m, Yields (P (m + 1)) (inOrder m)) (hstart : ∀ m, D m start)
    (hmember : ∀ m draft k, D m draft → Yields (D m) (member m draft k))
    (hfinish : ∀ m draft a, D m draft → finish draft = some a → P (m + 1) a) (n : Nat) :
    Yields (P n) (record n inOrder member start finish) := by
  unfold record
  refine yields_peek fun c? => ?_
  cases c? with
  | none => exact yields_fail _ _
  | some c =>
    dsimp only
    split
    · cases n with
      | zero => exact yields_fail _ _
      | succ m =>
        refine (yields_true _).bind fun _ _ => (harray m).bind fun a ha => ?_
        exact (yields_true _).bind fun _ _ => yields_pure ha
    split
    · cases n with
      | zero => exact yields_fail _ _
      | succ m =>
        refine (yields_true _).bind fun _ _ =>
          (yields_members (hmember m) (hstart m)).bind fun draft hdraft => ?_
        cases hresult : finish draft with
        | some a => exact yields_pure (hfinish m draft a hdraft hresult)
        | none => exact yields_fail _ _
    · exact yields_refuse _ _

theorem yields_onText {reader : Reader α} (h : Yields P reader) {text : String} {a : α}
    (hread : reader.onText text = .ok a) : P a := by
  obtain ⟨rest, hread, -⟩ := onText_eq_ok_iff.mp hread
  exact h hread

end CodeOutline.Json.Reader
