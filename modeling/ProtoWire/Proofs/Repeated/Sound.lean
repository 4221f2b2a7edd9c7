import ProtoWire.Proofs.Wire.Outcome
import ProtoWire.Repeated.Step

/-!
# Sound containers

* `Repeated.add_ok`, `Repeated.pushRecycled_ok`, `Repeated.reserve_ok`: what a success does to the
  values, and when there is one.
-/

namespace ProtoWire.Repeated

variable {n : Nat} {α : Type} {value : α} {reset : α → α} {values : List α} {size : Nat}
  {P : α → Prop} {c c' : Repeated α} {xs : List α} {a : α}

/-- The elements fit into the capacity, and have a property. -/
structure Sound (size : Nat) (P : α → Prop) (c : Repeated α) : Prop where
  room : c.values.length + c.retained.length ≤ c.capacity
  capacity_le : c.capacity ≤ maxCapacity size
  values : ∀ a ∈ c.values, P a
  retained : ∀ a ∈ c.retained, P a

theorem Sound.empty : Sound size P (empty : Repeated α) :=
  ⟨Nat.le_refl 0, Nat.zero_le _, nofun, nofun⟩

theorem Sound.mono {Q : α → Prop} (h : c.Sound size P) (hPQ : ∀ a, P a → Q a) : c.Sound size Q :=
  ⟨h.room, h.capacity_le, fun a ha => hPQ a (h.values a ha), fun a ha => hPQ a (h.retained a ha)⟩

theorem Sound.getLast (h : c.Sound size P) (hvalue : P value) :
    P (c.values.getLast?.getD value) := by
  cases hlast : c.values.getLast? with
  | none => exact hvalue
  | some a => exact h.values a (List.mem_of_getLast? hlast)

/-! ### Making room -/

theorem reserve_apply (size n : Nat) (c : Repeated α) :
    reserve size n c =
      if c.remainingCapacity < n then
        if maxCapacity size < c.values.length + n then .error .capacityOverflow c
        else .ok () { c with capacity := grownCapacity size c.capacity (c.values.length + n) }
      else .ok () c := by
  unfold reserve
  rw [bind_of_ok get_apply]
  by_cases hroom : c.remainingCapacity < n
  · by_cases hmax : maxCapacity size < c.values.length + n
    · simp only [hroom, hmax, if_true]
      rfl
    · simp only [hroom, hmax, if_true, if_false]
      rfl
  · simp only [hroom, if_false]
    rfl

theorem Sound.grown (h : c.Sound size P) (hroom : c.remainingCapacity < n)
    (hmax : c.values.length + n ≤ maxCapacity size) :
    Sound size P { c with capacity := grownCapacity size c.capacity (c.values.length + n) } := by
  have hle := h.room
  have hcap := h.capacity_le
  simp only [remainingCapacity] at hroom
  refine ⟨?_, ?_, h.values, h.retained⟩
  · simp only [grownCapacity]
    omega
  · simp only [grownCapacity]
    omega

theorem keeps_reserve (n : Nat) : Keeps (Sound size P) (reserve size n) := by
  intro c h
  rw [reserve_apply]
  by_cases hroom : c.remainingCapacity < n
  · by_cases hmax : maxCapacity size < c.values.length + n
    · simpa only [hroom, hmax, if_true] using h
    · simpa only [hroom, hmax, if_true, if_false] using h.grown hroom (Nat.le_of_not_lt hmax)
  · simpa only [hroom, if_false] using h

/-- Room is made for as many values as memory can hold. -/
theorem reserve_ok :
    (∃ c', reserve size n c = .ok () c') ↔
      n ≤ c.remainingCapacity ∨ c.values.length + n ≤ maxCapacity size := by
  rw [reserve_apply]
  by_cases hroom : c.remainingCapacity < n
  · by_cases hmax : maxCapacity size < c.values.length + n
    · simp [hroom, hmax, Nat.not_le_of_lt hroom, Nat.not_le_of_lt hmax]
    · simp [hroom, hmax, Nat.le_of_not_lt hmax]
  · simp [hroom, Nat.le_of_not_lt hroom]

/-- Making room leaves the elements alone, and there is room afterwards. -/
theorem reserve_spec (h : reserve size n c = .ok () c') :
    c'.values = c.values ∧ c'.retained = c.retained ∧ n ≤ c'.remainingCapacity := by
  rw [reserve_apply] at h
  split at h
  · split at h
    · cases h
    · cases h
      refine ⟨rfl, rfl, ?_⟩
      simp only [remainingCapacity, grownCapacity]
      omega
  · cases h
    exact ⟨rfl, rfl, by omega⟩

/-- Defaults are appended to no values, if containers can hold them. -/
theorem exists_addLength_empty (default : α) (hn : n ≤ maxCapacity size) :
    ∃ c, addLength size default n .empty = .ok () c ∧ c.values = List.replicate n default := by
  have hfit : (empty : Repeated α).values.length + n ≤ maxCapacity size := by simpa [empty] using hn
  obtain ⟨c, hreserve⟩ := reserve_ok.2 (.inr hfit)
  have hvalues : c.values = [] := (reserve_spec hreserve).1
  refine ⟨{ c with values := c.values ++ List.replicate n default }, ?_, by rw [hvalues]; rfl⟩
  unfold addLength
  rw [bind_of_ok modify_apply]
  exact bind_of_ok hreserve

/-! ### Appending -/

theorem add_apply (size : Nat) (value : α) (c : Repeated α) :
    add size value c =
      match c.retained with
      | _ :: rest => .ok () { c with values := c.values ++ [value], retained := rest }
      | [] =>
        if c.remainingCapacity = 0 then
          match reserve size 1 c with
          | .ok () c' => .ok () { c' with values := c'.values ++ [value] }
          | .error e c' => .error e c'
        else .ok () { c with values := c.values ++ [value] } := by
  unfold add
  rw [bind_of_ok get_apply]
  cases hretained : c.retained with
  | cons element rest => rfl
  | nil =>
    simp only
    rw [bind_of_ok get_apply]
    by_cases hroom : c.remainingCapacity = 0
    · simp only [hroom, if_true]
      cases hreserve : reserve size 1 c with
      | ok _ c' =>
        rw [bind_of_ok hreserve]
        rfl
      | error e c' => rw [bind_of_error hreserve]
    · simp only [hroom, if_false, modify_apply, hretained]

theorem add_values (h : add size value c = .ok () c') : c'.values = c.values ++ [value] := by
  rw [add_apply] at h
  split at h
  · cases h
    rfl
  · split at h
    · cases hreserve : reserve size 1 c with
      | error e c'' =>
        rw [hreserve] at h
        cases h
      | ok _ c'' =>
        rw [hreserve] at h
        cases h
        rw [(reserve_spec hreserve).1]
    · cases h
      rfl

/-- A value is appended exactly if memory can hold one more. -/
theorem add_ok (hc : c.Sound size P) :
    (∃ c', add size value c = .ok () c') ↔ c.values.length < maxCapacity size := by
  have hroom := hc.room
  have hcap := hc.capacity_le
  rw [add_apply]
  cases hretained : c.retained with
  | cons element rest =>
    rw [hretained, List.length_cons] at hroom
    simp only [EStateM.Result.ok.injEq, true_and, exists_eq', true_iff]
    omega
  | nil =>
    by_cases hzero : c.remainingCapacity = 0
    · have hiff : (∃ c', reserve size 1 c = .ok () c') ↔ _ := reserve_ok
      simp only [hzero, if_true]
      cases hreserve : reserve size 1 c with
      | ok _ c'' =>
        have := hiff.1 ⟨c'', hreserve⟩
        simp only [EStateM.Result.ok.injEq, true_and, exists_eq', true_iff]
        omega
      | error e c'' =>
        simp only [hreserve, reduceCtorEq, exists_false, false_iff] at hiff
        simp only [reduceCtorEq, exists_false, false_iff]
        omega
    · simp only [hzero, if_false, EStateM.Result.ok.injEq, true_and, exists_eq', true_iff]
      simp only [remainingCapacity] at hzero
      omega

theorem keeps_add (hvalue : P value) : Keeps (Sound size P) (add size value) := by
  intro c hc
  have hroom := hc.room
  rw [add_apply]
  have hvalues : ∀ a ∈ c.values ++ [value], P a := by
    intro a ha
    rcases List.mem_append.1 ha with ha | ha
    · exact hc.values a ha
    · rwa [List.mem_singleton.1 ha]
  cases hretained : c.retained with
  | cons element rest =>
    rw [hretained, List.length_cons] at hroom
    refine ⟨?_, hc.capacity_le, hvalues, fun a ha => hc.retained a (by simp [hretained, ha])⟩
    simp only [List.length_append, List.length_singleton]
    omega
  | nil =>
    by_cases hzero : c.remainingCapacity = 0
    · simp only [hzero, if_true]
      have hkeep := keeps_reserve 1 c hc
      cases hreserve : reserve size 1 c with
      | error e c' => simpa only [hreserve] using hkeep
      | ok _ c' =>
        obtain ⟨heq, hnil, hroom'⟩ := reserve_spec hreserve
        simp only [hreserve] at hkeep ⊢
        refine ⟨?_, hkeep.capacity_le, ?_, hkeep.retained⟩
        · simp only [remainingCapacity] at hroom'
          simp only [hnil, hretained, List.length_append, List.length_singleton, List.length_nil]
          omega
        · rw [heq]
          exact hvalues
    · simp only [hzero, if_false]
      refine ⟨?_, hc.capacity_le, hvalues, fun a ha => hc.retained a (by simp [hretained, ha])⟩
      simp only [remainingCapacity] at hzero
      rw [hretained] at hroom
      simp only [List.length_append, List.length_singleton, List.length_nil] at hroom ⊢
      omega

theorem pushRecycled_apply (size : Nat) (default : α) (reset : α → α) (c : Repeated α) :
    pushRecycled size default reset c =
      match c.retained with
      | element :: rest =>
        .ok () { c with values := c.values ++ [reset element], retained := rest }
      | [] => add size default c := by
  unfold pushRecycled
  rw [bind_of_ok get_apply]
  cases c.retained <;> rfl

theorem pushRecycled_values {default : α} (h : pushRecycled size default reset c = .ok () c') :
    ∃ a, c'.values = c.values ++ [a] ∧ (a = default ∨ ∃ element ∈ c.retained, a = reset element) := by
  rw [pushRecycled_apply] at h
  cases hretained : c.retained with
  | cons element rest =>
    rw [hretained] at h
    cases h
    exact ⟨reset element, rfl, .inr ⟨element, by simp, rfl⟩⟩
  | nil =>
    rw [hretained] at h
    exact ⟨default, add_values h, .inl rfl⟩

theorem pushRecycled_ok (hc : c.Sound size P) {default : α} :
    (∃ c', pushRecycled size default reset c = .ok () c') ↔ c.values.length < maxCapacity size := by
  have hroom := hc.room
  have hcap := hc.capacity_le
  rw [pushRecycled_apply]
  cases hretained : c.retained with
  | cons element rest =>
    rw [hretained, List.length_cons] at hroom
    simp only [EStateM.Result.ok.injEq, true_and, exists_eq', true_iff]
    omega
  | nil => exact add_ok hc

theorem keeps_pushRecycled {default : α} (hdefault : P default) (hreset : ∀ a, P a → P (reset a)) :
    Keeps (Sound size P) (pushRecycled size default reset) := by
  intro c hc
  have hroom := hc.room
  rw [pushRecycled_apply]
  cases hretained : c.retained with
  | nil => exact keeps_add hdefault c hc
  | cons element rest =>
    have hretain : ∀ a ∈ element :: rest, P a := hretained ▸ hc.retained
    rw [hretained, List.length_cons] at hroom
    refine ⟨?_, hc.capacity_le, ?_, fun a ha => hretain a (List.mem_cons_of_mem _ ha)⟩
    · simp only [List.length_append, List.length_singleton]
      omega
    · intro a ha
      rcases List.mem_append.1 ha with ha | ha
      · exact hc.values a ha
      · rw [List.mem_singleton.1 ha]
        exact hreset element (hretain element (by simp))

/-! ### Histories -/

/-- The values that an operation carries have a property, and resetting keeps it. -/
def Step.Carries (P : α → Prop) : Step α → Prop
  | add value | set _ value | replace _ value => P value
  | addAll values | copyFrom values => ∀ a ∈ values, P a
  | pushRecycled reset => ∀ a, P a → P (reset a)
  | addLength _ | pushDefault | reserve _ | reverse | clear | copy | discardRetained => True

/-- The values that an operation carries. -/
def Step.carried : Step α → List α
  | add value | set _ value | replace _ value => [value]
  | addAll values | copyFrom values => values
  | pushRecycled _ | addLength _ | pushDefault | reserve _ | reverse | clear | copy
  | discardRetained => []

/-- Whether an operation resets a retained element. -/
def Step.recycles : Step α → Bool
  | pushRecycled _ => true
  | _ => false

theorem Step.carries_of_carried {step : Step α} (h : ∀ a ∈ step.carried, P a)
    (hplain : step.recycles = false) : step.Carries P := by
  cases step with
  | add value | set index value | replace index value =>
    exact h value (List.mem_singleton_self value)
  | addAll values | copyFrom values => exact h
  | pushRecycled reset => cases hplain
  | addLength | pushDefault | reserve | reverse | clear | copy | discardRetained => exact trivial

theorem Step.carries_true (step : Step α) : step.Carries fun _ => True := by
  cases step <;> simp [Step.Carries]

theorem Sound.discardRetained (h : c.Sound size P) : c.discardRetained.Sound size P where
  room := Nat.le_trans (Nat.add_le_add_left (Nat.zero_le _) _) h.room
  capacity_le := h.capacity_le
  values := h.values
  retained := nofun

theorem Sound.clear (h : c.Sound size P) : c.clear.Sound size P where
  room := by
    have := h.room
    simp only [Repeated.clear, List.length_nil, List.length_append]
    omega
  capacity_le := h.capacity_le
  values := nofun
  retained := by
    intro a ha
    rcases List.mem_append.1 ha with ha | ha
    · exact h.values a ha
    · exact h.retained a ha

theorem Sound.ofList (hlength : values.length ≤ maxCapacity size) (hvalues : ∀ a ∈ values, P a) :
    (Repeated.ofList values).Sound size P :=
  ⟨Nat.le_refl _, hlength, hvalues, nofun⟩

theorem Sound.length_le (h : c.Sound size P) : c.values.length ≤ maxCapacity size := by
  have := h.room
  have := h.capacity_le
  omega

theorem Sound.withValues (h : c.Sound size P) (hlength : values.length = c.values.length)
    (hvalues : ∀ a ∈ values, P a) : Sound size P { c with values } :=
  ⟨by simpa only [hlength] using h.room, h.capacity_le, hvalues, h.retained⟩

/-- Dropping what is retained, making room and appending into the room. -/
theorem keeps_extend (hn : values.length = n) (hvalues : ∀ a ∈ values, P a) :
    Keeps (Sound size P) (do
      modify fun c => { c with retained := [] }
      reserve size n
      modify fun c => { c with values := c.values ++ values } : Edit α Unit) := by
  refine Ensures.bind (Q := fun _ c => c.Sound size P ∧ c.retained = [])
    (.modify fun c hc => ⟨hc.discardRetained, rfl⟩) fun _ => ?_
  refine Ensures.bind
    (Q := fun _ c => c.Sound size P ∧ c.retained = [] ∧ n ≤ c.remainingCapacity) ?_ fun _ => ?_
  · intro c hc
    have hkeep := keeps_reserve n c hc.1
    cases hreserve : reserve size n c with
    | error e c' => simpa only [hreserve] using hkeep
    | ok _ c' =>
      obtain ⟨-, hretained, hroom⟩ := reserve_spec hreserve
      simp only [hreserve] at hkeep
      exact ⟨hkeep, hretained.trans hc.2, hroom⟩
  · refine .modify fun c hc => ?_
    obtain ⟨hsound, hretained, hroom⟩ := hc
    refine ⟨?_, hsound.capacity_le, ?_, hsound.retained⟩
    · have := hsound.room
      simp only [remainingCapacity] at hroom
      simp only [hretained, List.length_append, List.length_nil] at this ⊢
      omega
    · intro a ha
      rcases List.mem_append.1 ha with ha | ha
      · exact hsound.values a ha
      · exact hvalues a ha

theorem modifyLast_values (h : c.values = xs ++ [a]) (f : α → α) :
    (c.modifyLast f).values = xs ++ [f a] := by
  have hmodify : ∀ xs : List α, (xs ++ [a]).modify xs.length f = xs ++ [f a] := by
    intro xs
    induction xs with
    | nil => rfl
    | cons x xs ih => simp [ih]
  rw [modifyLast]
  simp only [h, List.length_append, List.length_singleton, Nat.add_sub_cancel]
  exact hmodify xs

theorem Sound.modifyLast (h : c.Sound size P) (hvalue : P value) :
    (c.modifyLast fun _ => value).Sound size P := by
  refine h.withValues (List.length_modify ..) fun a ha => ?_
  rcases List.eq_nil_or_concat c.values with hnil | ⟨xs, b, hlast⟩
  · simp [hnil] at ha
  · rw [List.concat_eq_append] at hlast
    have hvalues : c.values.modify (c.values.length - 1) (fun _ => value) = xs ++ [value] :=
      modifyLast_values hlast fun _ => value
    rw [hvalues, List.mem_append, List.mem_singleton] at ha
    rcases ha with ha | rfl
    · exact h.values a (hlast ▸ List.mem_append_left _ ha)
    · exact hvalue

theorem keeps_set {index : Nat} (hvalue : P value) :
    Keeps (Sound size P) (Repeated.set index value) := by
  refine Ensures.bind .get fun c => ?_
  split
  · exact .throw fun _ h => h.2
  · refine .modify fun c h => h.2.withValues (List.length_set ..) fun a ha => ?_
    rcases List.mem_or_eq_of_mem_set ha with ha | rfl
    · exact h.2.values a ha
    · exact hvalue

/-- Every operation keeps a container sound, also one that fails. -/
theorem Step.keeps_run {default : α} (hdefault : P default) {step : Step α}
    (hstep : step.Carries P) : Keeps (Sound size P) (step.run size default) := by
  cases step with
  | add value => exact keeps_add hstep
  | addAll values => exact keeps_extend rfl hstep
  | addLength n => exact keeps_extend List.length_replicate fun a ha => (List.eq_of_mem_replicate ha) ▸ hdefault
  | pushDefault => exact keeps_add hdefault
  | pushRecycled reset => exact keeps_pushRecycled hdefault hstep
  | copyFrom values =>
    exact Ensures.bind (.modify fun c hc => hc.clear) fun _ => keeps_extend rfl hstep
  | reserve n => exact keeps_reserve n
  | set index value => exact keeps_set hstep
  | replace index value =>
    refine .modify fun c hc => hc.withValues (List.length_set ..) fun a ha => ?_
    rcases List.mem_or_eq_of_mem_set ha with ha | rfl
    · exact hc.values a ha
    · exact hstep
  | reverse =>
    exact .modify fun c hc => hc.withValues List.length_reverse
      fun a ha => hc.values a (List.mem_reverse.1 ha)
  | clear => exact .modify fun c hc => hc.clear
  | copy => exact .modify fun c hc => .ofList hc.length_le hc.values
  | discardRetained => exact .modify fun c hc => hc.discardRetained

end ProtoWire.Repeated
