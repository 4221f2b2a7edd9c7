import ProtoWire.Proofs.Repeated.Sound

/-!
# Growth of containers

Values that are appended one by one make a container grow by half at a time, so that it grows a
logarithmic number of times. Half of a small capacity is nothing, and half of an odd one loses a
fraction: what is carried along is the capacity less one, which does grow by half.
-/

namespace ProtoWire.Repeated

variable {size r n n' : Nat} {α : Type} {c : Repeated α}

/-- How often the capacity changes while values are appended. -/
def growths (size : Nat) : List α → Repeated α → Nat
  | [], _ => 0
  | value :: values, c =>
    match add size value c with
    | .ok _ c' => (if c'.capacity = c.capacity then 0 else 1) + growths size values c'
    | .error _ _ => 0

theorem growths_cons {value : α} {c' : Repeated α} (h : add size value c = .ok () c')
    (values : List α) :
    growths size (value :: values) c =
      (if c'.capacity = c.capacity then 0 else 1) + growths size values c' := by
  simp only [growths, h]

/-- A capacity that growing `r` times has reached. From the second time on, the capacity less one
is at least a power of one and a half. -/
def Reached : Nat → Nat → Prop
  | 0, _ => True
  | 1, n => 1 ≤ n
  | k + 2, n => 3 ^ k + 2 ^ k ≤ n * 2 ^ k

theorem Reached.grow (h : Reached r n) (hone : n + 1 ≤ n') (hhalf : n + n / 2 ≤ n') :
    Reached (r + 1) n' := by
  match r with
  | 0 => exact Nat.le_trans (Nat.le_add_left 1 n) hone
  | 1 =>
    have hn : 1 ≤ n := h
    simp only [Reached]
    omega
  | k + 2 =>
    have hn : 3 ^ k + 2 ^ k ≤ n * 2 ^ k := h
    have hthree : 3 * n ≤ 2 * n' + 1 := by omega
    have hscaled := Nat.mul_le_mul_right (2 ^ k) hthree
    simp only [Reached, Nat.pow_succ]
    linarith

theorem Reached.lt (h : Reached (r + 2) n) : 3 ^ r < (n + 1) * 2 ^ r := by
  have hn : 3 ^ r + 2 ^ r ≤ n * 2 ^ r := h
  have hpos := Nat.two_pow_pos r
  rw [Nat.add_mul]
  omega

/-- What holds of a new container after some appends, `r` of which made it grow. -/
structure Grown (size r : Nat) (c : Repeated α) : Prop where
  retained : c.retained = []
  room : c.values.length ≤ c.capacity
  capacity_le : c.capacity ≤ maxCapacity size
  capacity_le_half : c.capacity ≤ c.values.length + c.values.length / 2
  reached : c.capacity = maxCapacity size ∨ Reached r c.capacity
  few : 3 ≤ r → 3 ^ (r - 3) < c.values.length * 2 ^ (r - 3)

namespace Grown

theorem empty : Grown size 0 (empty : Repeated α) :=
  ⟨rfl, Nat.le_refl 0, Nat.zero_le _, Nat.zero_le _, .inr trivial, fun h => absurd h (by decide)⟩

/-- A value that fills a free place. -/
theorem fill (h : Grown size r c) (hfree : c.values.length < c.capacity) (value : α) :
    Grown size r { c with values := c.values ++ [value] } := by
  have hlength : (c.values ++ [value]).length = c.values.length + 1 := List.length_append
  have hhalf := h.capacity_le_half
  refine ⟨h.retained, ?_, h.capacity_le, ?_, h.reached, fun hr => ?_⟩
  · rwa [hlength]
  · simp only [hlength]
    omega
  · rw [hlength]
    exact Nat.lt_of_lt_of_le (h.few hr) (Nat.mul_le_mul_right _ (Nat.le_succ _))

/-- A value that does not fit. Only a capacity that is not the largest grows, and it was reached by
growing by half each time. -/
theorem grow (h : Grown size r c) (hfull : c.values.length = c.capacity)
    (hmax : c.capacity < maxCapacity size) (value : α) :
    Grown size (r + 1)
      { c with
        values := c.values ++ [value]
        capacity := grownCapacity size c.capacity (c.values.length + 1) } := by
  have hlength : (c.values ++ [value]).length = c.capacity + 1 := by
    rw [← hfull]
    exact List.length_append
  have hreached : Reached r c.capacity := h.reached.resolve_left (Nat.ne_of_lt hmax)
  refine ⟨h.retained, ?_, ?_, ?_, ?_, fun hr => ?_⟩ <;> simp only [grownCapacity, hlength, hfull]
  · omega
  · omega
  · omega
  · by_cases hcut : c.capacity + c.capacity / 2 ≤ maxCapacity size
    · exact .inr (hreached.grow (by omega) (by omega))
    · exact .inl (by omega)
  · obtain ⟨k, rfl⟩ : ∃ k, r = k + 2 := ⟨r - 2, by omega⟩
    exact hreached.lt

/-- A value is appended, unless there are as many as memory can hold. -/
theorem add_cases (h : Grown size r c) (value : α) :
    (∃ c', add size value c = .ok () c' ∧ c'.values = c.values ++ [value] ∧
      Grown size (r + if c'.capacity = c.capacity then 0 else 1) c') ∨
    (c.values.length = maxCapacity size ∧ c.capacity = maxCapacity size ∧
      add size value c = .error .capacityOverflow c) := by
  obtain ⟨values, retained, capacity⟩ := c
  obtain rfl : retained = [] := h.retained
  have hroom : values.length ≤ capacity := h.room
  have hmax : capacity ≤ maxCapacity size := h.capacity_le
  rw [add_apply]
  by_cases hzero : remainingCapacity ⟨values, [], capacity⟩ = 0
  · have hfull : values.length = capacity := by
      simp only [remainingCapacity] at hzero
      omega
    simp only [hzero, if_true, reserve_apply, Nat.zero_lt_one]
    by_cases hover : maxCapacity size < values.length + 1
    · rw [if_pos hover]
      exact .inr ⟨by omega, by omega, rfl⟩
    · rw [if_neg hover]
      refine .inl ⟨_, rfl, rfl, ?_⟩
      rw [if_neg (by simp only [grownCapacity]; omega)]
      exact h.grow hfull (by simp only; omega) value
  · have hfree : values.length < capacity := by
      simp only [remainingCapacity] at hzero
      omega
    simp only [hzero, if_false]
    exact .inl ⟨_, rfl, rfl, by simpa using h.fill hfree value⟩

/-- By induction on the values: each is appended, until memory cannot hold one more. -/
theorem appended (h : Grown size r c) (values : List α) :
    (∃ c', forM values (add size) c = .ok () c' ∧ c'.values = c.values ++ values ∧
      Grown size (r + growths size values c) c') ∨
    (maxCapacity size < c.values.length + values.length ∧
      ∃ c', forM values (add size) c = .error .capacityOverflow c' ∧
        c'.capacity = maxCapacity size) := by
  induction values generalizing r c with
  | nil => exact .inl ⟨c, rfl, (List.append_nil _).symm, h⟩
  | cons value values ih =>
    rw [List.forM_cons]
    obtain ⟨c', hadd, hvalues, h'⟩ | ⟨hlength, hcapacity, hadd⟩ := h.add_cases value
    · rw [bind_of_ok hadd]
      have hvalues' : c'.values ++ values = c.values ++ value :: values := by simp [hvalues]
      obtain ⟨c'', hrun, hall, h''⟩ | ⟨hlt, hrun⟩ := ih h'
      · refine .inl ⟨c'', hrun, hall.trans hvalues', ?_⟩
        rwa [Nat.add_assoc, ← growths_cons hadd values] at h''
      · refine .inr ⟨?_, hrun⟩
        rwa [← List.length_append, hvalues', List.length_append] at hlt
    · refine .inr ⟨?_, c, bind_of_error hadd, hcapacity⟩
      rw [hlength, List.length_cons]
      omega

/-- A container that grew `r` times has more values than the power of one and a half to `r - 3`. -/
theorem le_ceil_logb (h : Grown size r c) :
    r ≤ 2 + ⌈Real.logb (3 / 2) c.values.length⌉₊ := by
  by_cases hr : 3 ≤ r
  · have hpow : ((3 : ℝ) / 2) ^ ((r - 3 : ℕ) : ℝ) < c.values.length := by
      rw [Real.rpow_natCast, div_pow, div_lt_iff₀ (by positivity)]
      exact_mod_cast h.few hr
    have hlog := (Real.lt_logb_iff_rpow_lt (by norm_num) (lt_trans (by positivity) hpow)).2 hpow
    have := Nat.lt_ceil.2 hlog
    omega
  · omega

end Grown

/-- Appending values one by one to a new container succeeds for as many values as memory can hold.
Then the container grew a logarithmic number of times, and at most a third of it is free. One value
more is refused, and then the container has the largest capacity. -/
theorem growth_geometric (size : Nat) (values : List α) :
    (values.length ≤ maxCapacity size ∧
      ∃ c, forM values (add size) empty = .ok () c ∧ c.values = values ∧
        c.capacity ≤ values.length + values.length / 2 ∧
        ∀ r, growths size values empty = r →
          (3 ≤ r → 3 ^ (r - 3) < values.length * 2 ^ (r - 3)) ∧
          r ≤ 2 + ⌈Real.logb (3 / 2) values.length⌉₊) ∨
    (maxCapacity size < values.length ∧
      ∃ c, forM values (add size) empty = .error .capacityOverflow c ∧
        c.capacity = maxCapacity size) := by
  have hempty : Grown size 0 (empty : Repeated α) := .empty
  obtain ⟨c, hrun, hvalues, h⟩ | ⟨hlt, hrun⟩ := hempty.appended values
  · obtain rfl : c.values = values := hvalues
    rw [Nat.zero_add] at h
    refine .inl ⟨Nat.le_trans h.room h.capacity_le, c, hrun, rfl, h.capacity_le_half, ?_⟩
    rintro _ rfl
    exact ⟨h.few, h.le_ceil_logb⟩
  · exact .inr ⟨by simpa [Repeated.empty] using hlt, hrun⟩

theorem growth_geometric_ten :
    growths 4 (List.range 10) empty = 7 ∧ 3 ^ 4 < (List.range 10).length * 2 ^ 4 := by
  have hgrowths : growths 4 (List.range 10) empty = 7 := by decide
  obtain ⟨-, c, -, -, -, hr⟩ | ⟨hlt, -⟩ := growth_geometric 4 (List.range 10)
  · exact ⟨hgrowths, (hr 7 hgrowths).1 (by decide)⟩
  · exact absurd hlt (by decide)

end ProtoWire.Repeated
