import ProtoWire.Proofs.Generator.Declaration

/-!
# Boxed fields

A struct that stores its message fields inside itself has a finite size only if no message leads
back to itself by such fields. The generator boxes the fields on cycles. This is enough, no field is
boxed without need, and the fields of the generated structs are boxed as the graph says.
-/

namespace ProtoWire.Generator

open Code Relation

variable {f : FieldDecl} {field : String} {isProto3 : Bool}

/-! ### Declared fields -/

/-- A singular field of a message or group type. -/
structure IsInline (f : FieldDecl) (field target : String) : Prop where
  name : f.name = some field
  typeName : f.typeName = some target
  messageLike : f.type? = some .message ∨ f.type? = some .group
  singular : f.labelKind ≠ .repeated

theorem inlineField?_eq_some_iff {target : String} :
    inlineField? f = some (field, target) ↔ IsInline f field target := by
  unfold inlineField?
  constructor
  · intro h
    split at h
    · next hinline =>
      simp only [Bool.and_eq_true, Bool.or_eq_true, beq_iff_eq, bne_iff_ne] at hinline
      split at h
      · next hname htype =>
        cases h
        exact ⟨hname, htype, hinline.1, hinline.2⟩
      · cases h
    · cases h
  · rintro ⟨hname, htype, hmessage, hsingular⟩
    have hinline : ((f.type? == some .message || f.type? == some .group) &&
        f.labelKind != .repeated) = true := by
      simp only [Bool.and_eq_true, Bool.or_eq_true, beq_iff_eq, bne_iff_ne]
      exact ⟨hmessage, hsingular⟩
    rw [if_pos hinline, hname, htype]

theorem IsInline.strategy {target message : String} {strategy : Strategy}
    (h : IsInline f field target) (hstrategy : classify message f isProto3 = .ok strategy) :
    strategy.category.isMessageLike = true ∧ strategy.cardinality.isRepeated = false := by
  obtain ⟨htype, hrepeated⟩ := classify_eq_ok hstrategy
  constructor
  · rcases h.messageLike with hmessage | hgroup
    · rw [Option.some.inj (htype.symm.trans hmessage)]
      rfl
    · rw [Option.some.inj (htype.symm.trans hgroup)]
      rfl
  · rw [← Bool.not_eq_true, hrepeated]
    exact h.singular

/-- A message behind a box, if there is one. -/
def boxTy (element : Path) : Ty :=
  optionTy ((Path.root ["std", "boxed", "Box"]).applied true [.type element.toTy])

theorem FieldPlan.storage_of_messageLike {p : FieldPlan}
    (hmessage : p.strategy.category.isMessageLike = true)
    (hsingular : p.strategy.cardinality.isRepeated = false) :
    p.storage = if p.boxed then boxTy p.element else p.element.toTy := by
  have hstorage : p.storage = p.singleTy := by
    rw [FieldPlan.storage, FieldPlan.isRepeated, hsingular]
    rfl
  rw [hstorage, FieldPlan.singleTy]
  cases hcategory : p.strategy.category with
  | message | group => rfl
  | scalar kind | enum | text | blob =>
    rw [hcategory] at hmessage
    cases hmessage

/-! ### Files -/

/-- Files in which no two messages have one qualified name, and no two fields of a message one
name. -/
structure WellNamed (files : List FileDecl) : Prop where
  messages : ((declarations files).map Declaration.qualified).Nodup
  fields : ∀ d ∈ declarations files, (d.message.fields.filterMap FieldDecl.name).Nodup

/-- In files, a message stores another one by a field. -/
def Stores (files : List FileDecl) (outer field inner : String) : Prop :=
  ∃ d ∈ declarations files, d.qualified = outer ∧ ∃ f ∈ d.message.fields, IsInline f field inner

/-- In files, a message stores another one by a field that is not boxed. -/
def StoresUnboxed (files : List FileDecl) (outer inner : String) : Prop :=
  ∃ field, Stores files outer field inner ∧
    (outer, field) ∉ (InlineGraph.ofFiles files).recursiveFields

/-- A declared field and its plan: the plan has the name of the field, a box if the graph has the
field on a cycle, and a stored type to match. -/
structure BoxedByGraph (files : List FileDecl) (d : Declaration) (f : FieldDecl) (p : FieldPlan) :
    Prop where
  name : f.name = some p.protoName
  boxed_iff : p.boxed = true ↔
    (d.qualified, p.protoName) ∈ (InlineGraph.ofFiles files).recursiveFields
  storage : ∀ target, IsInline f p.protoName target →
    p.storage = if p.boxed then boxTy p.element else p.element.toTy

namespace WellNamed

variable {d : Declaration} {files : List FileDecl} (hfiles : WellNamed files)

include hfiles

theorem stores_iff {outer inner : String} :
    Stores files outer field inner ↔ (field, inner) ∈ (InlineGraph.ofFiles files).edges outer := by
  simp only [Stores, InlineGraph.mem_edges_ofFiles hfiles.messages, inlineField?_eq_some_iff]

theorem contains_eq : (InlineGraph.ofFiles files).Contains =
    fun outer inner => ∃ field, Stores files outer field inner := by
  funext outer inner
  simp only [InlineGraph.Contains, hfiles.stores_iff]

theorem kept_eq : (InlineGraph.ofFiles files).Kept = StoresUnboxed files := by
  funext outer inner
  simp only [InlineGraph.Kept, StoresUnboxed, hfiles.stores_iff]

theorem eq_of_name_eq (hd : d ∈ declarations files) {f' : FieldDecl} (hf : f ∈ d.message.fields)
    (hf' : f' ∈ d.message.fields) {name : String} (hname : f.name = some name)
    (hname' : f'.name = some name) : f = f' := by
  by_contra hne
  have hpair := List.pairwise_filterMap.1 (hfiles.fields d hd)
  have : Std.Symm fun f f' : FieldDecl =>
      ∀ name, f.name = some name → ∀ name', f'.name = some name' → name ≠ name' :=
    ⟨fun _ _ h name hname name' hname' => (h name' hname' name hname).symm⟩
  exact hpair.forall hf hf' hne name hname name hname' rfl

theorem boxed_iff {options : Options} (hd : d ∈ declarations files) (hf : f ∈ d.message.fields)
    {strategy : Strategy} (hstrategy : classify d.name f isProto3 = .ok strategy)
    {bit : Option PresenceBit} {oneof : Option OneofNames} {p : FieldPlan}
    (hp : FieldPlan.ofDecl (Setting.ofFiles options files) d.scope d.qualified f strategy bit
      oneof = .ok p) :
    p.boxed = true ↔ (d.qualified, p.protoName) ∈ (InlineGraph.ofFiles files).recursiveFields := by
  obtain ⟨hname, -, hboxed⟩ := FieldPlan.ofDecl_eq_ok hp
  rw [hboxed, Bool.and_eq_true, ← InlineGraph.isRecursive_iff]
  refine ⟨And.right, fun hrecursive => ⟨?_, hrecursive⟩⟩
  -- The field that the graph means has this name, so it is this one.
  obtain ⟨target, hedge, -⟩ :=
    InlineGraph.mem_recursiveFields.1 (InlineGraph.isRecursive_iff.1 hrecursive)
  obtain ⟨d', hd', hqualified, f', hf', hinline⟩ := hfiles.stores_iff.2 hedge
  obtain rfl := List.inj_on_of_nodup_map hfiles.messages hd' hd hqualified
  obtain rfl := hfiles.eq_of_name_eq hd hf' hf hinline.name hname
  obtain ⟨hmessage, hsingular⟩ := hinline.strategy hstrategy
  rw [hmessage, hsingular]
  rfl

/-- The same for all fields of a message. -/
theorem forall₂_boxed {options : Options} (hd : d ∈ declarations files) {plan : MessagePlan}
    (hplan : MessagePlan.ofDecl (Setting.ofFiles options files) d.scope isProto3 d.message =
      .ok plan) : List.Forall₂ (BoxedByGraph files d) d.message.fields plan.fields := by
  have hfields := MessagePlan.forall₂_fields d.named hplan
  rw [List.forall₂_iff_zip] at hfields ⊢
  refine ⟨hfields.1, fun {f p} hmem => ?_⟩
  obtain ⟨strategy, bit, hstrategy, hp⟩ := hfields.2 hmem
  obtain ⟨hname, hsame, -⟩ := FieldPlan.ofDecl_eq_ok hp
  refine ⟨hname, hfiles.boxed_iff hd (List.of_mem_zip hmem).1 hstrategy hp, fun target h => ?_⟩
  obtain ⟨hmessage, hsingular⟩ := h.strategy hstrategy
  rw [← hsame] at hmessage hsingular
  exact FieldPlan.storage_of_messageLike hmessage hsingular

end WellNamed

/-- Without the boxed fields no message leads back to itself, nor on for ever, so each struct has a
finite size. The boxed fields are exactly those on cycles. They are the fields that are planned with
a box and stored behind one, and the structs of generated code are those planned, one for each
message. The search behind it is right in any graph. -/
theorem boxing_sound_and_minimal (files : List FileDecl) (hfiles : WellNamed files) :
    (∀ message, ¬ TransGen (StoresUnboxed files) message message) ∧
    WellFounded (fun inner outer => StoresUnboxed files outer inner) ∧
    (∀ message field, (message, field) ∈ (InlineGraph.ofFiles files).recursiveFields ↔
      ∃ target, Stores files message field target ∧
        ReflTransGen (fun outer inner => ∃ field, Stores files outer field inner) target message) ∧
    (∀ options, ∀ d ∈ declarations files, ∀ isProto3 plan,
      MessagePlan.ofDecl (Setting.ofFiles options files) d.scope isProto3 d.message = .ok plan →
      List.Forall₂ (BoxedByGraph files d) d.message.fields plan.fields) ∧
    (∀ options, ∀ f ∈ files, ∀ items, fileItems (Setting.ofFiles options files) f = .ok items →
      List.Forall₂ (IsPlanned (Setting.ofFiles options files) f.isProto3) (fileDeclarations f)
        (structsOf items)) ∧
    ∀ (g : InlineGraph) start goal,
      g.reaches start goal = true ↔ ReflTransGen g.Contains start goal := by
  refine ⟨?_, ?_, fun message field => ?_, fun options d hd isProto3 plan hplan => ?_,
    fun options f _ items hitems => forall₂_structs hitems, fun g start goal => g.reaches_iff⟩
  · rw [← hfiles.kept_eq]
    exact InlineGraph.not_transGen_kept
  · rw [← hfiles.kept_eq]
    exact InlineGraph.wellFounded_kept
  · rw [InlineGraph.mem_recursiveFields, hfiles.contains_eq]
    simp only [hfiles.stores_iff]
  · exact hfiles.forall₂_boxed hd hplan

/-- A field of a message type. -/
def messageField (name target : String) (number label : Int32) : FieldDecl :=
  { name, number, label, type := some 11, typeName := target }

/-- A message that is inside another one, and back. -/
def ringEdge : MessageDecl :=
  { name := some "Edge", fields := [messageField "target" ".a.Node" 1 2] }

/-- Two files: a node has a node, nodes, an edge, and a leaf of its own, which has something that is
declared nowhere. -/
def ringFiles : List FileDecl :=
  [{ package := some "a"
     messages :=
      [{ name := some "Node"
         fields :=
          [messageField "next" ".a.Node" 1 1, messageField "kids" ".a.Node" 2 3,
           messageField "edge" ".b.Edge" 3 1, messageField "leaf" ".a.Node.Leaf" 4 1]
         messages :=
          [{ name := some "Leaf", fields := [messageField "lost" ".gone.Type" 1 1] }] }] },
   { package := some "b", messages := [ringEdge] }]

theorem boxing_sound_and_minimal_ring :
    WellNamed ringFiles ∧
    WellFounded (fun inner outer => StoresUnboxed ringFiles outer inner) ∧
    (".b.Edge", "target") ∈ (InlineGraph.ofFiles ringFiles).recursiveFields ∧
    ∃ plan p, MessagePlan.ofDecl (Setting.ofFiles {} ringFiles) (Scope.file "b" "b") false
        ringEdge = .ok plan ∧
      plan.fields = [p] ∧ p.boxed = true ∧ p.storage = boxTy p.element := by
  have hfiles : WellNamed ringFiles := ⟨by decide +kernel, by decide +kernel⟩
  obtain ⟨-, hfinite, hfields, hplans, -⟩ := boxing_sound_and_minimal ringFiles hfiles
  have hmem : ⟨Scope.file "b" "b", "Edge", ringEdge, rfl⟩ ∈ declarations ringFiles :=
    .tail _ (.tail _ (.head _))
  have hinline : IsInline (messageField "target" ".a.Node" 1 2) "target" ".a.Node" :=
    ⟨rfl, rfl, .inl rfl, by decide⟩
  have hthere : Stores ringFiles ".b.Edge" "target" ".a.Node" :=
    ⟨_, hmem, by decide +kernel, _, .head _, hinline⟩
  have hback : Stores ringFiles ".a.Node" "edge" ".b.Edge" :=
    ⟨_, .head _, by decide +kernel, _, .tail _ (.tail _ (.head _)), rfl, rfl, .inl rfl, by decide⟩
  have hring : (".b.Edge", "target") ∈ (InlineGraph.ofFiles ringFiles).recursiveFields :=
    (hfields _ _).2 ⟨".a.Node", hthere, .single ⟨"edge", hback⟩⟩
  have hok : (MessagePlan.ofDecl (Setting.ofFiles {} ringFiles) (Scope.file "b" "b") false
      ringEdge).toOption.isSome = true := by decide +kernel
  refine ⟨hfiles, hfinite, hring, ?_⟩
  cases hplan : MessagePlan.ofDecl (Setting.ofFiles {} ringFiles) (Scope.file "b" "b") false
      ringEdge with
  | error e =>
    rw [hplan] at hok
    cases hok
  | ok plan =>
    obtain ⟨p, rest, ⟨hname, hboxed, hstorage⟩, hrest, hsplit⟩ :=
      List.forall₂_cons_left_iff.1 (hplans {} _ hmem false plan hplan)
    cases hrest
    obtain hname : "target" = p.protoName := Option.some.inj hname
    rw [← hname] at hboxed hstorage
    have hbox : p.boxed = true := hboxed.2 hring
    refine ⟨plan, p, rfl, hsplit, hbox, ?_⟩
    rw [hstorage _ hinline, if_pos hbox]

end ProtoWire.Generator
