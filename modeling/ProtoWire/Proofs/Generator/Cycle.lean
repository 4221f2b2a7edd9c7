import Mathlib.Order.WellFoundedSet
import ProtoWire.Generator.InlineGraph

/-!
# Cycles of messages inside each other

The search for a way from one message to another goes through a graph that may have cycles, and
types that are declared nowhere. It finds a way exactly if there is one, so the fields it singles
out are those on cycles, and without them no message leads back to itself.

* `InlineGraph.mem_recursiveFields`: which fields are on cycles.
* `InlineGraph.Kept`, `InlineGraph.wellFounded_kept`: what remains without those fields, where
  nothing is inside each other for ever.
-/

namespace ProtoWire.Generator

/-- Where no two entries have one key, the latest entry of a key is the only one. -/
theorem lookup_reverse_eq_some_iff {α : Type} {entries : List (String × α)}
    (hentries : (entries.map Prod.fst).Nodup) {key : String} {value : α} :
    entries.reverse.lookup key = some value ↔ (key, value) ∈ entries := by
  rw [List.lookup_eq_some_iff]
  constructor
  · rintro ⟨before, behind, hsplit, -⟩
    rw [← List.mem_reverse, hsplit]
    simp
  · intro h
    obtain ⟨before, behind, rfl⟩ := List.append_of_mem h
    refine ⟨behind.reverse, before.reverse, by simp, fun p hp => ?_⟩
    rw [bne_iff_ne]
    intro hsame
    rw [List.map_append, List.map_cons] at hentries
    have hnew := (List.nodup_cons.1 (List.nodup_append.1 hentries).2.1).1
    exact hnew (List.mem_map.2 ⟨p, List.mem_reverse.1 hp, hsame.symm⟩)

namespace InlineGraph

open Relation

variable {message goal : String} {g : InlineGraph}

/-- A message has an inline field of another message. -/
def Contains (g : InlineGraph) (outer inner : String) : Prop :=
  ∃ field, (field, inner) ∈ g.edges outer

theorem mem_targets {outer inner : String} : inner ∈ g.targets outer ↔ g.Contains outer inner := by
  simp [targets, Contains]

/-! ### Entries -/

/-- Without another entry of its name, an entry counts. -/
theorem edges_of_mem (hg : (g.map Prod.fst).Nodup) {fields : List (String × String)}
    (h : (message, fields) ∈ g) : g.edges message = fields := by
  rw [edges, (lookup_reverse_eq_some_iff hg).2 h, Option.getD_some]

theorem exists_of_mem_edges {edge : String × String} (h : edge ∈ g.edges message) :
    ∃ fields, (message, fields) ∈ g ∧ edge ∈ fields := by
  rw [edges] at h
  cases hlookup : g.reverse.lookup message with
  | none =>
    rw [hlookup] at h
    cases h
  | some fields =>
    rw [hlookup, Option.getD_some] at h
    obtain ⟨_, _, hsplit, -⟩ := List.lookup_eq_some_iff.1 hlookup
    have hmem : (message, fields) ∈ g.reverse := by simp [hsplit]
    exact ⟨fields, List.mem_reverse.1 hmem, h⟩

theorem mem_keys_of_mem_edges {edge : String × String} (h : edge ∈ g.edges message) :
    message ∈ g.map Prod.fst := by
  obtain ⟨fields, hentry, -⟩ := exists_of_mem_edges h
  exact List.mem_map.2 ⟨_, hentry, rfl⟩

/-! ### The search -/

theorem exists_of_search {seen pending : List String} (h : g.search goal seen pending = true) :
    ∃ start ∈ pending, ReflTransGen g.Contains start goal := by
  fun_induction search g goal seen pending with
  | case1 => cases h
  | case2 seen rest => exact ⟨goal, List.mem_cons_self, .refl⟩
  | case3 seen current rest _ _ ih =>
    obtain ⟨start, hstart, hpath⟩ := ih h
    exact ⟨start, List.mem_cons_of_mem _ hstart, hpath⟩
  | case4 seen current rest _ _ ih =>
    obtain ⟨start, hstart, hpath⟩ := ih h
    rcases List.mem_append.1 hstart with hinner | hrest
    · exact ⟨current, List.mem_cons_self, .head (mem_targets.1 hinner) hpath⟩
    · exact ⟨start, List.mem_cons_of_mem _ hrest, hpath⟩

/-- A search in progress: the goal has not been seen, and whatever is inside a message seen has been
seen itself or is yet to come. -/
structure Searched (g : InlineGraph) (goal : String) (seen pending : List String) : Prop where
  goal_not_mem : goal ∉ seen
  covered : ∀ outer ∈ seen, ∀ inner, g.Contains outer inner → inner ∈ seen ∨ inner ∈ pending

/-- The goal cannot be reached from messages that a failed search has been through or had before
it. -/
theorem not_reachable_of_search {seen pending : List String}
    (h : g.search goal seen pending = false) (hsearched : g.Searched goal seen pending)
    {start : String} (hstart : start ∈ seen ∨ start ∈ pending) :
    ¬ ReflTransGen g.Contains start goal := by
  fun_induction search g goal seen pending generalizing start with
  | case1 seen =>
    -- Nothing is left, so what has been seen is closed, and the goal is outside of it.
    intro hpath
    have hclosed : ∀ message, ReflTransGen g.Contains start message → message ∈ seen := by
      intro message hpath
      induction hpath with
      | refl => simpa using hstart
      | tail _ hstep ih => simpa using hsearched.covered _ ih _ hstep
    exact hsearched.goal_not_mem (hclosed goal hpath)
  | case2 => cases h
  | case3 seen current rest _ hcurrent ih =>
    have hskip : ∀ message, message ∈ seen ∨ message ∈ current :: rest →
        message ∈ seen ∨ message ∈ rest := by
      rintro message (hseen | hpending)
      · exact .inl hseen
      · rcases List.mem_cons.1 hpending with rfl | hrest
        · exact .inl hcurrent
        · exact .inr hrest
    exact ih h ⟨hsearched.goal_not_mem, fun outer houter inner hinner =>
      hskip inner (hsearched.covered outer houter inner hinner)⟩ (hskip start hstart)
  | case4 seen current rest hgoal _ ih =>
    have hopen : ∀ message, message ∈ seen ∨ message ∈ current :: rest →
        message ∈ current :: seen ∨ message ∈ g.targets current ++ rest := by
      intro message hmessage
      simp only [List.mem_cons, List.mem_append] at hmessage ⊢
      tauto
    refine ih h ⟨?_, fun outer houter inner hinner => ?_⟩ (hopen start hstart)
    · simpa using ⟨Ne.symm hgoal, hsearched.goal_not_mem⟩
    · rcases List.mem_cons.1 houter with rfl | houter
      · exact .inr (List.mem_append_left _ (mem_targets.2 hinner))
      · exact hopen inner (hsearched.covered outer houter inner hinner)

/-- The search answers whether one message leads to another, in any graph. -/
theorem reaches_iff {start : String} :
    g.reaches start goal = true ↔ ReflTransGen g.Contains start goal := by
  constructor
  · intro h
    obtain ⟨_, hmem, hpath⟩ := exists_of_search h
    obtain rfl := List.mem_singleton.1 hmem
    exact hpath
  · intro hpath
    by_contra h
    rw [Bool.not_eq_true] at h
    have hsearched : g.Searched goal [] [start] :=
      ⟨List.not_mem_nil, fun _ houter => absurd houter List.not_mem_nil⟩
    exact not_reachable_of_search h hsearched (.inr List.mem_cons_self) hpath

/-! ### Fields on cycles -/

theorem mem_recursiveFields {field : String} :
    (message, field) ∈ g.recursiveFields ↔
      ∃ target, (field, target) ∈ g.edges message ∧ ReflTransGen g.Contains target message := by
  simp only [recursiveFields, List.mem_eraseDups, List.mem_flatMap, List.mem_filterMap,
    Option.ite_none_right_eq_some, Option.some.injEq, Prod.mk.injEq, reaches_iff]
  constructor
  · rintro ⟨owner, -, ⟨name, target⟩, hedge, hpath, rfl, rfl⟩
    exact ⟨target, hedge, hpath⟩
  · rintro ⟨target, hedge, hpath⟩
    exact ⟨message, mem_keys_of_mem_edges hedge, (field, target), hedge, hpath, rfl, rfl⟩

theorem isRecursive_iff {field : String} :
    g.isRecursive message field = true ↔ (message, field) ∈ g.recursiveFields := by
  simp only [isRecursive, mem_recursiveFields, List.any_eq_true, Bool.and_eq_true, beq_iff_eq,
    reaches_iff]
  constructor
  · rintro ⟨⟨name, target⟩, hedge, rfl, hpath⟩
    exact ⟨target, hedge, hpath⟩
  · rintro ⟨target, hedge, hpath⟩
    exact ⟨(field, target), hedge, rfl, hpath⟩

/-! ### Without them -/

/-- A message has an inline field of another message that is not on a cycle. -/
def Kept (g : InlineGraph) (outer inner : String) : Prop :=
  ∃ field, (field, inner) ∈ g.edges outer ∧ (outer, field) ∉ g.recursiveFields

theorem Kept.contains {outer inner : String} (h : g.Kept outer inner) : g.Contains outer inner := by
  obtain ⟨field, hedge, -⟩ := h
  exact ⟨field, hedge⟩

/-- The first field of a cycle is on a cycle. -/
theorem not_transGen_kept (message : String) : ¬ TransGen g.Kept message message := by
  intro hcycle
  obtain ⟨inner, ⟨field, hedge, hkept⟩, hback⟩ := TransGen.head'_iff.1 hcycle
  have hpath : ReflTransGen g.Contains inner message :=
    ReflTransGen.mono (fun _ _ => Kept.contains) _ _ hback
  exact hkept (mem_recursiveFields.2 ⟨inner, hedge, hpath⟩)

/-- Only finitely many messages have fields, so there is no endless way either. -/
theorem wellFounded_kept : WellFounded fun inner outer => g.Kept outer inner := by
  let below : String → String → Prop := fun inner outer => TransGen g.Kept outer inner
  have : IsStrictOrder String below :=
    { irrefl := not_transGen_kept
      trans := fun _ _ _ hab hbc => hbc.trans hab }
  have hfinite : {message | message ∈ g.map Prod.fst}.WellFoundedOn below :=
    (List.finite_toSet _).wellFoundedOn
  have hother : ∀ message, message ∉ g.map Prod.fst →
      Acc (fun inner outer => g.Kept outer inner) message := by
    intro message hm
    refine ⟨_, fun inner hinner => ?_⟩
    obtain ⟨field, hedge, -⟩ := hinner
    exact absurd (mem_keys_of_mem_edges hedge) hm
  refine ⟨fun message => ?_⟩
  by_cases hm : message ∈ g.map Prod.fst
  · refine hfinite.induction hm fun outer _ ih => ⟨_, fun inner hinner => ?_⟩
    by_cases hi : inner ∈ g.map Prod.fst
    · exact ih inner hi (.single hinner)
    · exact hother inner hi
  · exact hother message hm

end InlineGraph

end ProtoWire.Generator
