import ProtoWire.Proofs.Repeated.Sound

/-!
# Containers as lists

A container does to its values what the operations do to a plain list, whatever it retains behind
them.
-/

namespace ProtoWire.Repeated

variable {size : Nat} {α : Type} {default : α} {xs : List α} {c : Repeated α}

/-! ### Plain lists -/

/-- A list, if memory can hold it. -/
def fitting (size : Nat) (xs : List α) : Except Fault (List α) :=
  if xs.length ≤ maxCapacity size then .ok xs else .error .capacityOverflow

/-- What an operation does to a list. It fails for a place outside of the list, or if it needs room
for more elements than memory can hold. -/
def Step.plain (size : Nat) (default : α) (xs : List α) : Step α → Except Fault (List α)
  | add value => fitting size (xs ++ [value])
  | addAll values => fitting size (xs ++ values)
  | addLength n => fitting size (xs ++ List.replicate n default)
  | pushDefault | pushRecycled _ => fitting size (xs ++ [default])
  | copyFrom values => fitting size values
  | reserve n => if xs.length + n ≤ maxCapacity size then .ok xs else .error .capacityOverflow
  | set index value =>
    if index < xs.length then .ok (xs.set index value) else .error .indexOutOfBounds
  | replace index value => .ok (xs.set index value)
  | reverse => .ok xs.reverse
  | clear => .ok []
  | copy | discardRetained => .ok xs

/-- Resetting an element makes it the default. -/
def Step.Restores (default : α) : Step α → Prop
  | pushRecycled reset => ∀ a, reset a = default
  | _ => True

/-- The values to see after an action, or why it failed. -/
def visible : EStateM.Result Fault (Repeated α) Unit → Except Fault (List α)
  | .ok _ c => .ok c.values
  | .error e _ => .error e

/-- The container that an action leaves, whatever its outcome. -/
def left : EStateM.Result Fault (Repeated α) Unit → Repeated α
  | .ok _ c | .error _ c => c

/-- A container that was just made, and its values. -/
inductive Begins (size : Nat) : Repeated α → List α → Prop where
  | empty : Begins size empty []
  | withCapacity {n : Nat} {c : Repeated α} (h : withCapacity size n = .ok c) : Begins size c []
  | ofList {values : List α} (h : values.length ≤ maxCapacity size) :
    Begins size (ofList values) values

/-! ### Operations -/

/-- Making room succeeds if memory can hold so many values, and changes the capacity alone. -/
theorem Sound.reserve_cases (hc : c.Sound size fun _ => True) (n : Nat) :
    (c.values.length + n ≤ maxCapacity size ∧ ∃ capacity, c.capacity ≤ capacity ∧
      reserve size n c = .ok () { c with capacity }) ∨
    (maxCapacity size < c.values.length + n ∧ reserve size n c = .error .capacityOverflow c) := by
  have hroom := hc.room
  have hcap := hc.capacity_le
  rw [reserve_apply]
  split_ifs with hless hmax
  · exact .inr ⟨hmax, rfl⟩
  · refine .inl ⟨by omega, _, ?_, rfl⟩
    simp only [grownCapacity]
    omega
  · simp only [remainingCapacity] at hless
    exact .inl ⟨by omega, c.capacity, Nat.le_refl _, rfl⟩

theorem fitting_of_le (h : xs.length ≤ maxCapacity size) : fitting size xs = .ok xs :=
  if_pos h

theorem fitting_of_lt (h : maxCapacity size < xs.length) :
    fitting size xs = .error .capacityOverflow :=
  if_neg (Nat.not_le_of_lt h)

/-- The action shows the values of a list, or its failure, and the capacity does not get less. -/
def Refines (x : Edit α Unit) (c : Repeated α) (y : Except Fault (List α)) : Prop :=
  visible (x c) = y ∧ c.capacity ≤ (left (x c)).capacity

theorem Sound.refines_add (hc : c.Sound size fun _ => True) (value : α) :
    Refines (add size value) c (fitting size (c.values ++ [value])) := by
  have hroom := hc.room
  have hcap := hc.capacity_le
  have hlength : (c.values ++ [value]).length = c.values.length + 1 := List.length_append
  rw [Refines, add_apply]
  cases hretained : c.retained with
  | cons element rest =>
    rw [hretained, List.length_cons] at hroom
    rw [fitting_of_le (by omega)]
    exact ⟨rfl, Nat.le_refl _⟩
  | nil =>
    by_cases hzero : c.remainingCapacity = 0
    · obtain ⟨hle, capacity, hcapacity, hreserve⟩ | ⟨hlt, hreserve⟩ := hc.reserve_cases 1
      · rw [if_pos hzero, hreserve, fitting_of_le (by omega)]
        exact ⟨rfl, hcapacity⟩
      · rw [if_pos hzero, hreserve, fitting_of_lt (by omega)]
        exact ⟨rfl, Nat.le_refl _⟩
    · rw [if_neg hzero, fitting_of_le (by simp only [remainingCapacity] at hzero; omega)]
      exact ⟨rfl, Nat.le_refl _⟩

theorem Sound.refines_extend (hc : c.Sound size fun _ => True) {n : Nat} {values : List α}
    (hn : values.length = n) :
    Refines (do
      modify fun c => { c with retained := [] }
      reserve size n
      modify fun c => { c with values := c.values ++ values } : Edit α Unit) c
      (fitting size (c.values ++ values)) := by
  have hlength : (c.values ++ values).length = c.values.length + n := by
    rw [List.length_append, hn]
  have hdiscard : Sound size (fun _ => True) { c with retained := [] } := hc.discardRetained
  rw [Refines, bind_of_ok modify_apply]
  obtain ⟨hle, capacity, hcapacity, hreserve⟩ | ⟨hlt, hreserve⟩ := hdiscard.reserve_cases n
  · rw [bind_of_ok hreserve, fitting_of_le (hlength ▸ hle)]
    exact ⟨rfl, hcapacity⟩
  · rw [bind_of_error hreserve, fitting_of_lt (hlength ▸ hlt)]
    exact ⟨rfl, Nat.le_refl _⟩

/-- An operation does to the values what it does to a list. -/
theorem Sound.refines_step (hc : c.Sound size fun _ => True) {step : Step α}
    (hstep : step.Restores default) (hcopy : step ≠ .copy) :
    Refines (step.run size default) c (step.plain size default c.values) := by
  cases step with
  | add value => exact hc.refines_add value
  | pushDefault => exact hc.refines_add default
  | addAll values => exact hc.refines_extend rfl
  | addLength n => exact hc.refines_extend List.length_replicate
  | pushRecycled reset =>
    rw [Refines, Step.run, pushRecycled_apply]
    cases hretained : c.retained with
    | nil => exact hc.refines_add default
    | cons element rest =>
      have hroom := hc.room
      have hcap := hc.capacity_le
      rw [hretained, List.length_cons] at hroom
      rw [Step.plain, fitting_of_le (by rw [List.length_append, List.length_singleton]; omega)]
      simp only [hstep element]
      exact ⟨rfl, Nat.le_refl _⟩
  | copyFrom values =>
    have hextend : Refines _ c.clear (fitting size ([] ++ values)) := hc.clear.refines_extend rfl
    obtain ⟨hvisible, hcapacity⟩ := hextend
    exact ⟨(congrArg visible (bind_of_ok modify_apply)).trans hvisible, hcapacity⟩
  | reserve n =>
    obtain ⟨hle, capacity, hcapacity, hreserve⟩ | ⟨hlt, hreserve⟩ := hc.reserve_cases n
    · rw [Refines, Step.run, hreserve, Step.plain, if_pos hle]
      exact ⟨rfl, hcapacity⟩
    · rw [Refines, Step.run, hreserve, Step.plain, if_neg (Nat.not_le_of_lt hlt)]
      exact ⟨rfl, Nat.le_refl _⟩
  | set index value =>
    rw [Refines, Step.run, Repeated.set, bind_of_ok get_apply, Step.plain]
    split_ifs with hle hlt
    · omega
    · exact ⟨rfl, Nat.le_refl _⟩
    · exact ⟨rfl, Nat.le_refl _⟩
    · omega
  | replace | reverse | clear | discardRetained => exact ⟨rfl, Nat.le_refl _⟩
  | copy => exact absurd rfl hcopy

/-! ### Histories -/

theorem Begins.sound (h : Begins size c xs) : c.Sound size fun _ => True := by
  cases h with
  | empty => exact .empty
  | @withCapacity n c h =>
    rw [Repeated.withCapacity] at h
    split_ifs at h with hn
    cases h
    exact ⟨Nat.zero_le _, hn, nofun, nofun⟩
  | ofList h => exact .ofList h fun _ _ => trivial

theorem Begins.values_eq (h : Begins size c xs) : c.values = xs := by
  cases h with
  | withCapacity h =>
    rw [Repeated.withCapacity] at h
    split_ifs at h
    cases h
    rfl
  | empty | ofList => rfl

/-- By induction on the operations, each of which leaves a sound container. -/
theorem Sound.refines_history (hc : c.Sound size fun _ => True) {steps : List (Step α)}
    (hsteps : ∀ step ∈ steps, step.Restores default) :
    visible (forM steps (Step.run size default) c) =
      steps.foldlM (fun xs step => step.plain size default xs) c.values ∧
    (left (forM steps (Step.run size default) c)).Sound size (fun _ => True) ∧
    (.copy ∉ steps → c.capacity ≤ (left (forM steps (Step.run size default) c)).capacity) := by
  induction steps generalizing c with
  | nil => exact ⟨rfl, hc, fun _ => Nat.le_refl _⟩
  | cons step steps ih =>
    rw [List.forall_mem_cons] at hsteps
    have hvisible : visible (step.run size default c) = step.plain size default c.values := by
      by_cases hcopy : step = .copy
      · subst hcopy
        rfl
      · exact (hc.refines_step hsteps.1 hcopy).1
    have hkeeps : Keeps (Sound size fun _ => True) (step.run size default) :=
      Step.keeps_run trivial step.carries_true
    have hsound := hkeeps c hc
    rw [List.forM_cons, List.foldlM_cons, ← hvisible]
    cases hrun : step.run size default c with
    | ok _ c' =>
      rw [hrun] at hsound
      obtain ⟨hvalues, hleft, hcapacity⟩ := ih hsound hsteps.2
      rw [bind_of_ok hrun]
      refine ⟨hvalues, hleft, fun hcopy => ?_⟩
      have hle := (hc.refines_step hsteps.1 fun h => hcopy (by simp [h])).2
      rw [hrun] at hle
      exact Nat.le_trans hle (hcapacity fun h => hcopy (List.mem_cons_of_mem _ h))
    | error e c' =>
      rw [hrun] at hsound
      rw [bind_of_error hrun]
      refine ⟨rfl, hsound, fun hcopy => ?_⟩
      have hle := (hc.refines_step hsteps.1 fun h => hcopy (by simp [h])).2
      rwa [hrun] at hle

variable (default) in
/-- After a history of operations, a container shows what they make of a plain list, and it fails
when they do. Its elements fit into its capacity, also after a failure, and only copying lowers
the capacity. A container is made with a capacity unless memory cannot hold so much, where an element
without size counts as one byte. -/
theorem refines_plain_list (hstart : Begins size c xs) (steps : List (Step α))
    (hsteps : ∀ step ∈ steps, step.Restores default) :
    visible (forM steps (Step.run size default) c) =
      steps.foldlM (fun xs step => step.plain size default xs) xs ∧
    (∀ c', left (forM steps (Step.run size default) c) = c' →
      c'.values.length ≤ (c'.values ++ c'.retained).length ∧
      (c'.values ++ c'.retained).length ≤ c'.capacity ∧ c'.capacity ≤ maxCapacity size ∧
      (.copy ∉ steps → c.capacity ≤ c'.capacity)) ∧
    ∀ n e, withCapacity (α := α) size n = .error e → maxCapacity size < n := by
  obtain ⟨hvisible, hsound, hcapacity⟩ := hstart.sound.refines_history hsteps
  refine ⟨hstart.values_eq ▸ hvisible, ?_, fun n e h => ?_⟩
  · rintro _ rfl
    rw [List.length_append]
    exact ⟨Nat.le_add_right _ _, hsound.room, hsound.capacity_le, hcapacity⟩
  · rw [withCapacity] at h
    split_ifs at h with hn
    exact Nat.lt_of_not_le hn

/-- What was cleared is not seen again, and a place behind the values is refused. -/
theorem refines_plain_list_recycled :
    visible (forM [Step.clear, .pushRecycled fun _ => 0, .add 7, .set 2 9] (Step.run 4 0)
      (ofList [1, 2, 3])) = .error .indexOutOfBounds :=
  (refines_plain_list 0 (.ofList (by decide)) _ (by simp [Step.Restores])).1.trans rfl

end ProtoWire.Repeated
