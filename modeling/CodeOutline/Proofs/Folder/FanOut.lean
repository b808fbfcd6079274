import CodeOutline.Folder.FanOut

/-! # What a fan-out delivers

Whatever step a fan-out takes, the results it has delivered, those of the items under way and those
of the items still waiting are together the same list: `outcome`.  An item under way counts with
the result it has, or with the one it is going to have.  So the order in which items are completed
does not matter.

Every step also brings the end nearer by one (`Step.toGo_eq`), and there is a step unless nothing
is left to do.  Hence `run` has done everything after three steps for each item, and gives the
results in the order of the items.
-/

namespace CodeOutline.FanOut

variable {α β : Type} {work : α → β} {width : Nat}

/-- The results of a fan-out, as far as it has come and as it will go on. -/
def outcome (work : α → β) (state : FanOut α β) : List β :=
  state.delivered ++ state.underWay.map (fun entry => entry.2.getD (work entry.1)) ++
    state.waiting.map work

/-- The number of steps that are left.  An item is taken up, completed and delivered, so an item
    under way takes one more step, and two if it is not done. -/
def toGo (state : FanOut α β) : Nat :=
  3 * state.waiting.length + state.underWay.length +
    state.underWay.countP (fun entry => entry.2.isNone)

/-! ## One step -/

theorem Step.outcome_eq {state next : FanOut α β} (h : Step work width state next) :
    next.outcome work = state.outcome work := by
  cases h with
  | takeUp item waiting underWay delivered _ => simp [outcome]
  | complete waiting before after item delivered => simp [outcome]
  | deliver waiting item result underWay delivered => simp [outcome]

theorem Step.toGo_eq {state next : FanOut α β} (h : Step work width state next) :
    state.toGo = next.toGo + 1 := by
  cases h with
  | takeUp item waiting underWay delivered _ =>
    simp [toGo]
    omega
  | complete waiting before after item delivered =>
    simp [toGo]
    omega
  | deliver waiting item result underWay delivered =>
    simp [toGo]
    omega

/-- What is chosen as the next step may happen. -/
theorem step_of_next? {state next : FanOut α β} (h : next? work width state = some next) :
    Step work width state next := by
  obtain ⟨waiting, underWay, delivered⟩ := state
  rcases underWay with _ | ⟨⟨first, _ | result⟩, rest⟩
  · -- Nothing is under way.
    rcases waiting with _ | ⟨item, waiting⟩
    · cases h
    · simp only [next?] at h
      split at h
      · cases h
        exact .takeUp item waiting [] delivered (by assumption)
      · cases h
  · -- The first item under way is not done.
    rcases waiting with _ | ⟨item, waiting⟩
    · cases h
      exact .complete [] [] rest first delivered
    · simp only [next?] at h
      split at h
      · cases h
        exact .takeUp item waiting ((first, none) :: rest) delivered (by assumption)
      · cases h
        exact .complete (item :: waiting) [] rest first delivered
  · cases h
    exact .deliver waiting first result rest delivered

/-- There is no next step only if nothing is left to do. -/
theorem done_of_next?_eq_none {state : FanOut α β} (hwidth : 0 < width)
    (h : next? work width state = none) : state.waiting = [] ∧ state.underWay = [] := by
  obtain ⟨waiting, underWay, delivered⟩ := state
  rcases underWay with _ | ⟨⟨first, _ | result⟩, rest⟩
  · rcases waiting with _ | ⟨item, waiting⟩
    · exact ⟨rfl, rfl⟩
    · -- There is room for at least one item.
      rw [next?, if_pos (by exact hwidth)] at h
      cases h
  · rcases waiting with _ | ⟨item, waiting⟩
    · cases h
    · simp only [next?] at h
      split at h <;> cases h
  · cases h

/-! ## All steps -/

theorem outcome_of_done {state : FanOut α β} (h : state.waiting = [] ∧ state.underWay = []) :
    state.outcome work = state.delivered := by
  rw [outcome, h.1, h.2, List.map_nil, List.map_nil, List.append_nil, List.append_nil]

/-- With enough steps, everything is delivered. -/
theorem delivered_advance (hwidth : 0 < width) {steps : Nat} {state : FanOut α β}
    (hsteps : state.toGo ≤ steps) :
    (advance work width steps state).delivered = state.outcome work := by
  induction steps generalizing state with
  | zero =>
    cases hnext : next? work width state with
    | none => exact (outcome_of_done (done_of_next?_eq_none hwidth hnext)).symm
    | some next =>
      -- A step that could still be taken would have been counted.
      have := (step_of_next? hnext).toGo_eq
      omega
  | succ steps ih =>
    rw [advance]
    cases hnext : next? work width state with
    | none => exact (outcome_of_done (done_of_next?_eq_none hwidth hnext)).symm
    | some next =>
      have hstep := step_of_next? hnext
      have := hstep.toGo_eq
      rw [← hstep.outcome_eq]
      exact ih (by omega)

/-- A fan-out gives the result of each item, in the order of the items and whatever its width. -/
theorem run_eq_map (work : α → β) (width : Nat) (items : List α) :
    run work width items = items.map work := by
  have htoGo : (start items : FanOut α β).toGo = 3 * items.length := rfl
  have houtcome : (start items : FanOut α β).outcome work = items.map work := rfl
  rw [run, delivered_advance (by omega) (Nat.le_of_eq htoGo), houtcome]

/-! ## Every order of completion

`run` goes one way.  Whatever other way is gone, the results are the same, there is a next step until
everything is delivered, and that is after finitely many steps. -/

theorem isDone_iff {state : FanOut α β} :
    state.isDone ↔ state.waiting = [] ∧ state.underWay = [] := by
  simp [isDone]

theorem Steps.outcome_eq {state later : FanOut α β} (h : Steps work width state later) :
    later.outcome work = state.outcome work := by
  induction h with
  | refl state => rfl
  | step hstep _ ih => rw [ih, hstep.outcome_eq]

theorem delivered_of_steps {items : List α} {final : FanOut α β}
    (h : Steps work width (start items) final) (hdone : final.isDone) :
    final.delivered = items.map work := by
  rw [← outcome_of_done (isDone_iff.mp hdone), h.outcome_eq]
  rfl

theorem exists_step (hwidth : 0 < width) {state : FanOut α β} (h : state.isDone = false) :
    ∃ next, Step work width state next := by
  cases hnext : next? work width state with
  | some next => exact ⟨next, step_of_next? hnext⟩
  | none =>
    have hdone := isDone_iff.mpr (done_of_next?_eq_none hwidth hnext)
    rw [h] at hdone
    cases hdone

theorem not_forall_step (states : Nat → FanOut α β) :
    ¬ ∀ i, Step work width (states i) (states (i + 1)) := by
  intro h
  have hcount : ∀ i, (states 0).toGo = (states i).toGo + i := by
    intro i
    induction i with
    | zero => rfl
    | succ i ih =>
      have := (h i).toGo_eq
      omega
  have := hcount ((states 0).toGo + 1)
  omega

end CodeOutline.FanOut
