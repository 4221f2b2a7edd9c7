import ProtoWire.Descriptor.Decl

/-!
# Messages inside each other

A singular message or group field is stored inside its message. Where such fields lead back to the
message they started from, it would have no finite size, so each field on such a cycle is boxed.
-/

namespace ProtoWire.Generator

/-- For each message, by its qualified name, its inline fields with the names of their types. Of
several entries for a name the latest counts. -/
abbrev InlineGraph := List (String × List (String × String))

/-- The name and type name of a field that is stored inline. -/
def inlineField? (f : FieldDecl) : Option (String × String) :=
  if (f.type? == some .message || f.type? == some .group) && f.labelKind != .repeated then
    match f.name, f.typeName with
    | some name, some target => some (name, target)
    | _, _ => none
  else none

mutual

/-- The entries of a message, below a qualified name, and of those nested in it. -/
def inlineEntries (scope : String) : MessageDecl → InlineGraph
  | ⟨some name, fields, messages, _, _, _⟩ =>
    (scope ++ "." ++ name, fields.filterMap inlineField?) ::
      inlineEntriesAll (scope ++ "." ++ name) messages
  | ⟨none, _, _, _, _, _⟩ => []

def inlineEntriesAll (scope : String) : List MessageDecl → InlineGraph
  | [] => []
  | m :: rest => inlineEntries scope m ++ inlineEntriesAll scope rest

end

namespace InlineGraph

def ofFiles (files : List FileDecl) : InlineGraph :=
  files.flatMap fun f =>
    let package := f.package.getD ""
    inlineEntriesAll (if package == "" then "" else "." ++ package) f.messages

variable (g : InlineGraph)

def edges (message : String) : List (String × String) :=
  (g.reverse.lookup message).getD []

def targets (message : String) : List String :=
  (g.edges message).map Prod.snd

/-- The messages that have an entry and are not among those seen. -/
def unseen (seen : List String) : List String :=
  (g.map Prod.fst).filter fun message => !seen.contains message

variable {g} in
theorem targets_of_not_mem {message : String} (h : message ∉ g.map Prod.fst) :
    g.targets message = [] := by
  have : g.reverse.lookup message = none := by
    rw [List.lookup_eq_none_iff]
    intro p hp
    rw [bne_iff_ne]
    rintro rfl
    exact h (List.mem_map_of_mem (List.mem_reverse.mp hp))
  simp [targets, edges, this]

theorem unseen_cons (seen : List String) (message : String) :
    g.unseen (message :: seen) = (g.unseen seen).filter fun m => !decide (m = message) := by
  simp [unseen, List.filter_filter]

theorem unseen_cons_le (seen : List String) (message : String) :
    (g.unseen (message :: seen)).length ≤ (g.unseen seen).length := by
  rw [unseen_cons]
  exact List.length_filter_le _ _

variable {g} in
theorem unseen_cons_lt {seen : List String} {message : String}
    (hm : message ∈ g.map Prod.fst) (hs : message ∉ seen) :
    (g.unseen (message :: seen)).length < (g.unseen seen).length := by
  rw [unseen_cons, List.length_filter_lt_length_iff_exists]
  exact ⟨message, List.mem_filter.mpr ⟨hm, by simpa using hs⟩, by simp⟩

/-- Whether a search that has seen some messages, and has others before it, finds a message. -/
def search (goal : String) (seen pending : List String) : Bool :=
  match pending with
  | [] => false
  | current :: rest =>
    if current = goal then true
    else if current ∈ seen then search goal seen rest
    else search goal (current :: seen) (g.targets current ++ rest)
termination_by ((g.unseen seen).length, pending.length)
decreasing_by
  · exact Prod.Lex.right _ (by simp)
  · by_cases hm : current ∈ g.map Prod.fst
    · exact Prod.Lex.left _ _ (unseen_cons_lt hm ‹_›)
    · rw [targets_of_not_mem hm]
      rcases Nat.lt_or_eq_of_le (unseen_cons_le g seen current) with h | h
      · exact Prod.Lex.left _ _ h
      · rw [h]
        exact Prod.Lex.right _ (by simp)

/-- Whether a message leads to another through inline fields. -/
def reaches (start goal : String) : Bool :=
  g.search goal [] [start]

/-- Whether a field of a message lies on a cycle. -/
def isRecursive (message field : String) : Bool :=
  (g.edges message).any fun (name, target) => name == field && g.reaches target message

/-- The fields on cycles, with their messages, in the order of declaration. -/
def recursiveFields : List (String × String) :=
  ((g.map Prod.fst).eraseDups.flatMap fun message =>
    (g.edges message).filterMap fun (field, target) =>
      if g.reaches target message then some (message, field) else none).eraseDups

end InlineGraph

end ProtoWire.Generator
