import ProtoWire.Generator.File
import ProtoWire.Proofs.Generator.Cycle
import ProtoWire.Proofs.Generator.Plan

/-!
# Declared messages

Messages are declared in files and inside each other. Code is generated by a walk through them, and
the graph of what is stored inside what is made by another; both come by the same messages, under
the same names.
-/

namespace ProtoWire.Generator

open Code

variable {items : List Item}

/-- A message where it is declared. -/
structure Declaration where
  scope : Scope
  name : String
  message : MessageDecl
  named : message.name = some name

/-- The qualified name of a declared message. -/
def Declaration.qualified (d : Declaration) : String :=
  d.scope.qualify d.name

mutual

/-- A message and those nested in it. Without a name there are none. -/
def declarationsOf (scope : Scope) : MessageDecl → List Declaration
  | ⟨some name, fields, messages, enums, options, oneofs⟩ =>
    ⟨scope, name, ⟨some name, fields, messages, enums, options, oneofs⟩, rfl⟩ ::
      declarationsIn (scope.nested name) messages
  | ⟨none, _, _, _, _, _⟩ => []

/-- The messages declared in a scope. -/
def declarationsIn (scope : Scope) : List MessageDecl → List Declaration
  | [] => []
  | m :: rest => declarationsOf scope m ++ declarationsIn scope rest

end

/-- The messages of a file. -/
def fileDeclarations (f : FileDecl) : List Declaration :=
  declarationsIn (Scope.ofFile f) f.messages

/-- The messages of files. -/
def declarations (files : List FileDecl) : List Declaration :=
  files.flatMap fileDeclarations

/-! ### The graph -/

/-- The entry of a message in the graph. -/
def Declaration.inlineEntry (d : Declaration) : String × List (String × String) :=
  (d.qualified, d.message.fields.filterMap inlineField?)

mutual

theorem inlineEntries_eq (scope : Scope) (m : MessageDecl) :
    inlineEntries scope.protoPath m = (declarationsOf scope m).map Declaration.inlineEntry := by
  obtain ⟨name, _, messages, _, _, _⟩ := m
  cases name with
  | none => rw [inlineEntries, declarationsOf, List.map_nil]
  | some name =>
    rw [inlineEntries, declarationsOf, List.map_cons,
      ← inlineEntriesAll_eq (scope.nested name) messages]
    rfl

theorem inlineEntriesAll_eq (scope : Scope) (ms : List MessageDecl) :
    inlineEntriesAll scope.protoPath ms =
      (declarationsIn scope ms).map Declaration.inlineEntry := by
  cases ms with
  | nil => rw [inlineEntriesAll, declarationsIn, List.map_nil]
  | cons m rest =>
    rw [inlineEntriesAll, declarationsIn, List.map_append, inlineEntries_eq, inlineEntriesAll_eq]

end

/-- The graph names messages as generation does. -/
theorem InlineGraph.ofFiles_eq (files : List FileDecl) :
    InlineGraph.ofFiles files = (declarations files).map Declaration.inlineEntry := by
  rw [InlineGraph.ofFiles, declarations, List.map_flatMap]
  exact List.flatMap_congr fun f _ => inlineEntriesAll_eq (Scope.ofFile f) f.messages

/-- Where no two messages have one name, the fields of a message are found by it. -/
theorem InlineGraph.mem_edges_ofFiles {files : List FileDecl}
    (hfiles : ((declarations files).map Declaration.qualified).Nodup) {message : String}
    {edge : String × String} :
    edge ∈ (InlineGraph.ofFiles files).edges message ↔
      ∃ d ∈ declarations files, d.qualified = message ∧
        ∃ f ∈ d.message.fields, inlineField? f = some edge := by
  rw [InlineGraph.ofFiles_eq]
  constructor
  · intro h
    obtain ⟨fields, hentry, hedge⟩ := InlineGraph.exists_of_mem_edges h
    obtain ⟨d, hd, heq⟩ := List.mem_map.1 hentry
    cases heq
    exact ⟨d, hd, rfl, List.mem_filterMap.1 hedge⟩
  · rintro ⟨d, hd, rfl, f, hf, hinline⟩
    have hkeys : (((declarations files).map Declaration.inlineEntry).map Prod.fst).Nodup := by
      rwa [List.map_map]
    rw [InlineGraph.edges_of_mem hkeys (List.mem_map_of_mem hd)]
    exact List.mem_filterMap.2 ⟨f, hf, hinline⟩

/-! ### The code -/

mutual

/-- The structs that code declares, with their fields, also those in modules inside. -/
def structs : Item → List (String × List (String × Ty))
  | .struct _ name fields => [(name, fields)]
  | .enum _ _ _ | .implementation _ _ _ _ => []
  | .submodule _ items => structsOf items

/-- The structs of items. -/
def structsOf : List Item → List (String × List (String × Ty))
  | [] => []
  | item :: rest => structs item ++ structsOf rest

end

theorem structsOf_append (items more : List Item) :
    structsOf (items ++ more) = structsOf items ++ structsOf more := by
  induction items with
  | nil => rfl
  | cons item items ih => rw [List.cons_append, structsOf, structsOf, ih, List.append_assoc]

theorem structsOf_messagePlan (plan : MessagePlan) :
    structsOf plan.items = [(plan.ident, plan.storage)] := by
  simp [MessagePlan.items, structsOf, structs]

theorem structsOf_enumPlan (plan : EnumPlan) : structsOf plan.items = [] := by
  unfold EnumPlan.items
  split <;> simp [structsOf, structs]

theorem structsOf_enumsItems {enums : List EnumDecl} (h : enumsItems enums = .ok items) :
    structsOf items = [] := by
  induction enums generalizing items with
  | nil =>
    cases h
    rfl
  | cons e rest ih =>
    rw [enumsItems] at h
    obtain ⟨first, more, hfirst, hmore, rfl⟩ := append_eq_ok h
    obtain ⟨plan, -, rfl⟩ := map_eq_ok_iff.1 hfirst
    rw [structsOf_append, structsOf_enumPlan, ih hmore, List.append_nil]

theorem structsOf_nestedModule {name : String} {nested : List Item}
    (h : nestedModule name nested = .ok items) : structsOf items = structsOf nested := by
  unfold nestedModule at h
  split at h
  · next hempty =>
    cases h
    rw [List.isEmpty_iff.1 hempty]
  · obtain ⟨ident, -, h⟩ := bind_eq_ok_iff.1 h
    cases h
    simp [structsOf, structs]

/-- A struct is the one that was planned for a message. -/
def IsPlanned (setting : Setting) (isProto3 : Bool) (d : Declaration)
    (struct : String × List (String × Ty)) : Prop :=
  ∃ plan, MessagePlan.ofDecl setting d.scope isProto3 d.message = .ok plan ∧
    struct = (plan.ident, plan.storage)

variable {setting : Setting} {isProto3 : Bool}

mutual

theorem forall₂_structs_messageItems (scope : Scope) (m : MessageDecl)
    {items : List Item} (h : messageItems setting scope isProto3 m = .ok items) :
    List.Forall₂ (IsPlanned setting isProto3) (declarationsOf scope m) (structsOf items) := by
  obtain ⟨name, _, messages, _, _, _⟩ := m
  rw [messageItems] at h
  obtain ⟨plan, hplan, h⟩ := bind_eq_ok_iff.1 h
  obtain ⟨nestedEnums, henums, h⟩ := bind_eq_ok_iff.1 h
  obtain ⟨nestedMessages, hmessages, h⟩ := bind_eq_ok_iff.1 h
  obtain ⟨nested, hnested, h⟩ := bind_eq_ok_iff.1 h
  cases h
  cases name with
  | none =>
    obtain ⟨_, _, hname, -⟩ := MessagePlan.ofDecl_eq_ok hplan
    cases hname
  | some name =>
    rw [declarationsOf, structsOf_append, structsOf_messagePlan, structsOf_nestedModule hnested,
      structsOf_append, structsOf_enumsItems henums]
    exact .cons ⟨plan, hplan, rfl⟩ (forall₂_structs_messagesItems _ messages hmessages)

theorem forall₂_structs_messagesItems (scope : Scope) (ms : List MessageDecl)
    {items : List Item} (h : messagesItems setting scope isProto3 ms = .ok items) :
    List.Forall₂ (IsPlanned setting isProto3) (declarationsIn scope ms) (structsOf items) := by
  cases ms with
  | nil =>
    rw [messagesItems] at h
    cases h
    rw [declarationsIn]
    exact .nil
  | cons m rest =>
    rw [messagesItems] at h
    obtain ⟨first, more, hfirst, hmore, rfl⟩ := append_eq_ok h
    rw [declarationsIn, structsOf_append]
    exact List.rel_append (forall₂_structs_messageItems scope m hfirst)
      (forall₂_structs_messagesItems scope rest hmore)

end

/-- The structs of a file are those planned for its messages, in order. -/
theorem forall₂_structs {f : FileDecl} (h : fileItems setting f = .ok items) :
    List.Forall₂ (IsPlanned setting f.isProto3) (fileDeclarations f) (structsOf items) := by
  rw [fileItems] at h
  obtain ⟨enums, messages, henums, hmessages, rfl⟩ := append_eq_ok h
  rw [structsOf_append, structsOf_enumsItems henums]
  exact forall₂_structs_messagesItems (Scope.ofFile f) f.messages hmessages

end ProtoWire.Generator
