import ProtoWire.Proofs.Generator.Site

/-!
# Members of generated messages

The members of a message are its stored fields and its methods. Their names are put together from
those of fields and oneofs, so two of them may come out the same. The names are listed once for the
check and written once more with the code. Both have the same names, and the check lets no name
through that is there twice, or is one that every message has.
-/

namespace ProtoWire

/-! ### Names without escape marks -/

namespace Source

theorem dropRawMarks_ne (chars rest : List Char) : dropRawMarks chars ≠ 'r' :: '#' :: rest := by
  fun_induction dropRawMarks chars with
  | case1 _ ih => exact ih
  | case2 chars h => exact h rest

theorem dropRawMarks_of_forall_ne {chars : List Char} (h : ∀ rest, chars ≠ 'r' :: '#' :: rest) :
    dropRawMarks chars = chars := by
  unfold dropRawMarks
  split
  · exact absurd rfl (h _)
  · rfl

/-- A mark could only be in front, where none is left. -/
theorem bareName_append (name : String) {behind : String} (h : behind.toList.head? = some '_') :
    bareName (bareName name ++ behind) = bareName name ++ behind := by
  obtain ⟨tail, hbehind⟩ := List.head?_eq_some_iff.1 h
  have hmarks := dropRawMarks_ne name.toList
  refine String.toList_inj.1 ?_
  rw [bareName, String.toList_ofList, String.toList_append, hbehind, bareName,
    String.toList_ofList]
  generalize dropRawMarks name.toList = chars at hmarks
  refine dropRawMarks_of_forall_ne fun rest heq => ?_
  match chars with
  | [] => simp at heq
  | [c] => simp at heq
  | c :: d :: more =>
    simp only [List.cons_append, List.cons.injEq] at heq
    exact hmarks more (by rw [heq.1, heq.2.1])

theorem bareName_append_of_head? {front : String} {c : Char} (h : front.toList.head? = some c)
    (hc : c ≠ 'r') (behind : String) : bareName (front ++ behind) = front ++ behind := by
  rw [bareName, dropRawMarks_of_forall_ne, String.ofList_toList]
  intro rest heq
  have hhead := congrArg List.head? heq
  rw [String.toList_append, List.head?_append, h] at hhead
  exact hc (Option.some.inj hhead)

end Source

namespace Generator

open Code Source

variable {oneofs : List OneofPlan} {names : List String} {name : String} {items : List Item}

/-- The name of a method, without escape mark. -/
def methodName (g : Function) : String :=
  bareName g.name

/-! ### Names of fields -/

theorem bareName_front {front : String} (h : front ∈ ["has_", "clear_", "add_", "set_", "try_"])
    (behind : String) : bareName (front ++ behind) = front ++ behind := by
  simp only [List.mem_cons, List.not_mem_nil, or_false] at h
  obtain rfl | rfl | rfl | rfl | rfl := h <;>
    exact bareName_append_of_head? rfl (by decide) behind

namespace FieldPlan

variable (f : FieldPlan)

theorem map_methodName_tryGetters : f.tryGetters.map methodName =
    if f.optionalAccessors then ["try_" ++ f.base] else [] := by
  unfold tryGetters
  split
  · exact congrArg (fun name => [name]) (bareName_front (by decide) _)
  · rfl

/-- The names listed for a field are those of its methods; one of them is also the name of the
stored field. -/
theorem perm_memberNames : (f.accessors.map methodName).Perm f.memberNames := by
  have hident : bareName f.ident = f.base := rfl
  have hmut : bareName (f.base ++ "_mut") = f.base ++ "_mut" := bareName_append f.ident (by decide)
  have hvalue : bareName (f.base ++ "_value") = f.base ++ "_value" :=
    bareName_append f.ident (by decide)
  rw [List.perm_iff_count]
  intro name
  unfold accessors memberNames
  -- the methods of each kind of field, with their names
  cases f.isRepeated with
  | true =>
    cases hcategory : f.strategy.category <;>
      simp [repeatedAccessors, repeatedMutators, methodName, hasMethod, hasName, getter, partGetter,
        mutator, Category.isPackable, hcategory, hident, hmut, bareName_front, List.count_cons] <;>
      ac_rfl
  | false =>
    cases hcategory : f.strategy.category <;>
      simp [singularAccessors, getters, map_methodName_tryGetters, setters, partGetters,
        clearMethod, methodName, hasMethod, hasName, getter, partGetter, mutator, hcategory,
        hident, hmut, hvalue, bareName_front, String.append_assoc, List.count_cons] <;>
      ac_rfl

end FieldPlan

/-! ### Names of oneofs -/

namespace OneofPlan

/-- A oneof whose names are made of its own, which has no escape mark. -/
structure IsNamed (o : OneofPlan) : Prop where
  base : ∃ name, o.base = bareName name
  case : o.names.case = o.base ++ "_case"
  clear : o.names.clear = "clear_" ++ o.base

variable {o : OneofPlan}

theorem IsNamed.bareName_case (h : o.IsNamed) : bareName o.names.case = o.base ++ "_case" := by
  obtain ⟨name, hbase⟩ := h.base
  rw [h.case, hbase, bareName_append name (by decide)]

/-- The names listed for a oneof are those of its methods; the first is also the name of the stored
case. -/
theorem IsNamed.map_methodName (h : o.IsNamed) (members : List FieldPlan) :
    (o.methods members).map methodName = o.memberNames := by
  simp [methods, memberNames, methodName, h.bareName_case, h.clear, bareName_front]

theorem isNamed_of_ofDecl? {index : Nat} {decl : OneofDecl} {bit : Option PresenceBit}
    (h : ofDecl? index decl bit = .ok (some o)) : o.IsNamed := by
  unfold ofDecl? at h
  split at h
  · cases h
  · obtain ⟨name, -, h⟩ := bind_eq_ok_iff.1 h
    obtain ⟨case, hcase, h⟩ := bind_eq_ok_iff.1 h
    obtain ⟨clear, hclear, h⟩ := bind_eq_ok_iff.1 h
    cases h
    exact ⟨⟨_, rfl⟩, (identifier_eq_ok_iff.1 hcase).2, (identifier_eq_ok_iff.1 hclear).2⟩

theorem isNamed_of_collectFrom {bits : List (Option PresenceBit)} {index : Nat}
    {decls : List OneofDecl} (h : collectFrom bits index decls = .ok oneofs) :
    ∀ o ∈ oneofs, o.IsNamed := by
  induction decls generalizing index oneofs with
  | nil =>
    cases h
    simp
  | cons decl rest ih =>
    rw [collectFrom] at h
    obtain ⟨plan?, hplan, h⟩ := bind_eq_ok_iff.1 h
    obtain ⟨plans, hplans, h⟩ := bind_eq_ok_iff.1 h
    cases h
    refine List.forall_mem_append.2 ⟨fun o ho => ?_, ih hplans⟩
    rw [Option.mem_toList.1 ho] at hplan
    exact isNamed_of_ofDecl? hplan

end OneofPlan

/-! ### The check -/

/-- No name is there twice, and none is a member of every message. -/
def AreFree (names : List String) : Prop :=
  (reservedMembers ++ names).Nodup

instance (names : List String) : Decidable (AreFree names) :=
  inferInstanceAs (Decidable (List.Nodup _))

theorem areFree_append_singleton :
    AreFree (names ++ [name]) ↔ AreFree names ∧ name ∉ names ∧ name ∉ reservedMembers := by
  rw [AreFree, AreFree, ← List.append_assoc, List.nodup_append_comm, List.singleton_append,
    List.nodup_cons, List.mem_append, not_or, and_comm, and_comm (a := name ∉ names)]

theorem AreFree.sublist {other : List String} (h : AreFree names) (hsublist : other.Sublist names) :
    AreFree other :=
  List.Nodup.sublist (hsublist.append_left _) h

theorem AreFree.notMem_reserved (h : AreFree names) : ∀ name ∈ names, name ∉ reservedMembers :=
  fun name hname hreserved => (List.nodup_append.1 h).2.2 name hreserved name hname rfl

/-- Among members with their owners, the first that is reserved or taken by one before it, with its
owner, and the reason that is given. -/
def FirstClash (members : List (String × String)) (owner reason : String) : Prop :=
  ∃ before member behind, members = before ++ (member, owner) :: behind ∧
    AreFree (before.map Prod.fst) ∧
    ((member ∈ reservedMembers ∧
        reason = "generated member `" ++ member ++ "` is already defined on every message") ∨
      (member ∉ reservedMembers ∧ ∃ other, (member, other) ∈ before ∧
        reason = "generated member `" ++ member ++ "` is also generated for `" ++ other ++ "`"))

theorem notMem_of_lookup_eq_none {taken : List (String × String)} {member : String}
    (h : taken.lookup member = none) : member ∉ taken.map Prod.fst := by
  intro hmem
  obtain ⟨entry, hentry, rfl⟩ := List.mem_map.1 hmem
  exact bne_iff_ne.1 (List.lookup_eq_none_iff.1 h entry hentry) rfl

/-- The check goes through members behind others that are free. It passes if all are free, and else
names the first that is not. -/
theorem clashFrom_reverse {before rest : List (String × String)}
    (hbefore : AreFree (before.map Prod.fst)) :
    (clashFrom before.reverse rest = none ∧ AreFree ((before ++ rest).map Prod.fst)) ∨
      ∃ owner reason, clashFrom before.reverse rest = some (owner, reason) ∧
        FirstClash (before ++ rest) owner reason := by
  induction rest generalizing before with
  | nil => exact .inl ⟨rfl, by rwa [List.append_nil]⟩
  | cons entry rest ih =>
    obtain ⟨member, owner⟩ := entry
    by_cases hreserved : member ∈ reservedMembers
    · refine .inr ⟨owner, _, ?_, before, member, rest, rfl, hbefore, .inl ⟨hreserved, rfl⟩⟩
      rw [clashFrom, if_pos (by simpa using hreserved)]
    · rw [clashFrom, if_neg (by simpa using hreserved)]
      cases hlookup : before.reverse.lookup member with
      | some other =>
        obtain ⟨_, _, hsplit, -⟩ := List.lookup_eq_some_iff.1 hlookup
        have hother : (member, other) ∈ before.reverse := by simp [hsplit]
        exact .inr ⟨owner, _, rfl, before, member, rest, rfl, hbefore,
          .inr ⟨hreserved, other, List.mem_reverse.1 hother, rfl⟩⟩
      | none =>
        have hnew : member ∉ before.map Prod.fst := by
          simpa [List.map_reverse] using notMem_of_lookup_eq_none hlookup
        have hnext : AreFree ((before ++ [(member, owner)]).map Prod.fst) := by
          rw [List.map_append]
          exact areFree_append_singleton.2 ⟨hbefore, hnew, hreserved⟩
        simpa using ih hnext

section Clash

variable {fields : List FieldPlan}

theorem not_areFree_of_firstClash {members : List (String × String)} {owner reason : String}
    (h : FirstClash members owner reason) : ¬ AreFree (members.map Prod.fst) := by
  obtain ⟨before, member, behind, rfl, -, hclash⟩ := h
  intro hfree
  have hsplit : (before ++ (member, owner) :: behind).map Prod.fst =
      (before.map Prod.fst ++ [member]) ++ behind.map Prod.fst := by simp
  rw [hsplit] at hfree
  obtain ⟨-, hnew, hfree⟩ :=
    areFree_append_singleton.1 (hfree.sublist (List.sublist_append_left ..))
  rcases hclash with ⟨hreserved, -⟩ | ⟨-, other, hother, -⟩
  · exact hfree hreserved
  · exact hnew (List.mem_map.2 ⟨_, hother, rfl⟩)

theorem memberClash?_cases (fields : List FieldPlan) (oneofs : List OneofPlan) :
    (memberClash? fields oneofs = none ∧ AreFree ((ownedMembers fields oneofs).map Prod.fst)) ∨
      ∃ owner reason, memberClash? fields oneofs = some (owner, reason) ∧
        FirstClash (ownedMembers fields oneofs) owner reason :=
  @clashFrom_reverse [] (ownedMembers fields oneofs) (by decide)

/-- The check passes exactly if all names are free. -/
theorem memberClash?_eq_none_iff :
    memberClash? fields oneofs = none ↔ AreFree ((ownedMembers fields oneofs).map Prod.fst) := by
  rcases memberClash?_cases fields oneofs with ⟨hnone, hfree⟩ | ⟨owner, reason, hsome, hclash⟩
  · exact ⟨fun _ => hfree, fun _ => hnone⟩
  · refine ⟨fun hnone => ?_, fun hfree => absurd hfree (not_areFree_of_firstClash hclash)⟩
    cases hnone.symm.trans hsome

/-- Names that are not free have a first clash, and the check answers it. -/
theorem exists_firstClash (h : ¬ AreFree ((ownedMembers fields oneofs).map Prod.fst)) :
    ∃ owner reason, memberClash? fields oneofs = some (owner, reason) ∧
      FirstClash (ownedMembers fields oneofs) owner reason :=
  (memberClash?_cases fields oneofs).resolve_left fun hpassed => h hpassed.2

end Clash

/-! ### Members in code -/

/-- The names of the fields that the structs among items store. -/
def storedNames (items : List Item) : List String :=
  items.flatMap fun
    | .struct _ _ fields => fields.map Prod.fst
    | _ => []

/-- The name of a method. -/
def functionName? : Member → Option String
  | .function g => some g.name
  | .constant _ _ _ => none

/-- The names of the methods that items give a type of its own, not through a trait. -/
def inherentNames (items : List Item) : List String :=
  items.flatMap fun
    | .implementation _ none _ members => members.filterMap functionName?
    | _ => []

/-- The methods that fields and oneofs bring. -/
def memberMethods (fields : List FieldPlan) (oneofs : List OneofPlan) : List Function :=
  fields.flatMap FieldPlan.accessors ++
    oneofs.flatMap fun o => o.methods (fields.filter o.hasMember)

/-- The stored fields that fields and oneofs bring. -/
def memberStorage (fields : List FieldPlan) (oneofs : List OneofPlan) : List String :=
  fields.map (·.ident) ++ oneofs.map (·.names.case)

theorem storedNames_messagePlan (plan : MessagePlan) : storedNames plan.items =
    plan.whenBits "has_bits" ++ memberStorage plan.fields plan.oneofs := by
  have hstored : storedNames plan.items = plan.storage.map Prod.fst := by
    simp [storedNames, MessagePlan.items]
  have hbits (type : Ty) :
      (plan.whenBits ("has_bits", type)).map Prod.fst = plan.whenBits "has_bits" := by
    unfold MessagePlan.whenBits
    split <;> rfl
  rw [hstored, MessagePlan.storage, List.map_append, List.map_append, hbits, memberStorage,
    List.append_assoc]
  simp [Function.comp_def]

theorem inherentNames_messagePlan (plan : MessagePlan) : inherentNames plan.items =
    ["new", "default_instance"] ++ (memberMethods plan.fields plan.oneofs).map (·.name) := by
  have hmembers : inherentNames plan.items =
      ((plan.constructors ++ plan.methods).map Member.function).filterMap functionName? := by
    simp only [inherentNames, MessagePlan.items, List.flatMap_cons, List.flatMap_nil,
      List.nil_append, List.append_nil]
  rw [hmembers, List.filterMap_map, show functionName? ∘ Member.function = some ∘ (·.name) from rfl,
    List.filterMap_eq_map, List.map_append]
  rfl

theorem names_nestedModule {nested : List Item} (h : nestedModule name nested = .ok items) :
    storedNames items = [] ∧ inherentNames items = [] := by
  unfold nestedModule at h
  split at h
  · cases h
    exact ⟨rfl, rfl⟩
  · obtain ⟨ident, -, h⟩ := bind_eq_ok_iff.1 h
    cases h
    exact ⟨rfl, rfl⟩

/-! ### Free names in code -/

section Members

variable {fields : List FieldPlan}

theorem map_fst_ownedMembers : (ownedMembers fields oneofs).map Prod.fst =
    fields.flatMap FieldPlan.memberNames ++ oneofs.flatMap OneofPlan.memberNames := by
  simp [ownedMembers, List.map_flatMap, Function.comp_def]

theorem perm_memberMethods (h : ∀ o ∈ oneofs, o.IsNamed) :
    ((memberMethods fields oneofs).map methodName).Perm
      ((ownedMembers fields oneofs).map Prod.fst) := by
  rw [map_fst_ownedMembers, memberMethods, List.map_append, List.map_flatMap, List.map_flatMap]
  refine (List.Perm.flatMap_left fields fun f _ => f.perm_memberNames).append (.of_eq ?_)
  exact List.flatMap_congr fun o ho => (h o ho).map_methodName _

/-- What has one name for each element is part of what has the name among others. -/
theorem sublist_flatMap {α : Type} {name : α → String} {names : α → List String} {as : List α}
    (h : ∀ a ∈ as, [name a].Sublist (names a)) : (as.map name).Sublist (as.flatMap names) := by
  induction as with
  | nil => exact .slnil
  | cons a rest ih =>
    obtain ⟨ha, hrest⟩ := List.forall_mem_cons.1 h
    exact ha.append (ih hrest)

theorem sublist_memberStorage (h : ∀ o ∈ oneofs, o.IsNamed) :
    ((memberStorage fields oneofs).map bareName).Sublist
      ((ownedMembers fields oneofs).map Prod.fst) := by
  rw [map_fst_ownedMembers, memberStorage, List.map_append, List.map_map, List.map_map]
  refine (sublist_flatMap fun f _ => ?_).append (sublist_flatMap fun o ho => ?_)
  · exact List.singleton_sublist.2 (List.mem_append_left _ List.mem_cons_self)
  · rw [Function.comp_apply, (h o ho).bareName_case]
    exact List.singleton_sublist.2 List.mem_cons_self

end Members

/-- The fields and oneofs of a message are planned: the message has a name, the fields are
classified, and their types and defaults are found. Only the names are yet to be checked. -/
structure IsPrepared (setting : Setting) (scope : Scope) (isProto3 : Bool) (m : MessageDecl)
    (name : String) (strategies : List Strategy) (fields : List FieldPlan)
    (oneofs : List OneofPlan) : Prop where
  named : m.name = some name
  legal : isLegal (typeName name) = true
  classified : m.fields.mapM (classify name · isProto3) = .ok strategies
  collected : OneofPlan.collect m
    (allocate (strategies.map (·.cardinality)) m.oneofs.length) = .ok oneofs
  planned : MessagePlan.planFields setting scope (scope.qualify name) oneofs
    (m.fields.zip (strategies.zip
      (allocate (strategies.map (·.cardinality)) m.oneofs.length).fields)) = .ok fields

/-- The members in the code of a message are apart: no stored field has the name of another, no
method that of another, and none that fields and oneofs bring is one that every message has. -/
structure MembersApart (fields : List FieldPlan) (oneofs : List OneofPlan) (items : List Item) :
    Prop where
  stored : ∃ bits ∈ [[], ["has_bits"]], storedNames items = bits ++ memberStorage fields oneofs
  inherent : inherentNames items =
    ["new", "default_instance"] ++ (memberMethods fields oneofs).map (·.name)
  nodup_stored : ((storedNames items).map bareName).Nodup
  nodup_inherent : ((inherentNames items).map bareName).Nodup
  stored_notMem : ∀ name ∈ memberStorage fields oneofs, bareName name ∉ reservedMembers
  method_notMem : ∀ g ∈ memberMethods fields oneofs, methodName g ∉ reservedMembers

section Prepared

variable {setting : Setting} {scope : Scope} {isProto3 : Bool} {m : MessageDecl}
  {strategies : List Strategy} {fields : List FieldPlan}

theorem IsPrepared.isNamed
    (h : IsPrepared setting scope isProto3 m name strategies fields oneofs) :
    ∀ o ∈ oneofs, o.IsNamed :=
  OneofPlan.isNamed_of_collectFrom h.collected

theorem IsPrepared.ofDecl_eq
    (h : IsPrepared setting scope isProto3 m name strategies fields oneofs) :
    MessagePlan.ofDecl setting scope isProto3 m =
      (memberClash? fields oneofs).elim
        (.ok {
          ident := typeName name, fields, oneofs, order := setting.options.order
          wordCount := (allocate (strategies.map (·.cardinality)) m.oneofs.length).wordCount })
        fun clash => fail (.unhandled name clash.1 clash.2) := by
  have hname : orFail .missingName m.name = .ok name := orFail_eq_ok_iff.2 h.named
  have hident : identifier (typeName name) = .ok (typeName name) :=
    identifier_eq_ok_iff.2 ⟨h.legal, rfl⟩
  have hclassified : (m.fields.mapM (classify name · isProto3)).mapError Failure.error =
      .ok strategies := mapError_eq_ok_iff.2 h.classified
  unfold MessagePlan.ofDecl
  simp only [hname, hident, hclassified, h.collected, h.planned, bind, Except.bind]
  cases memberClash? fields oneofs <;> rfl

theorem isPrepared_of_ofDecl {plan : MessagePlan}
    (h : MessagePlan.ofDecl setting scope isProto3 m = .ok plan) :
    ∃ name strategies,
      IsPrepared setting scope isProto3 m name strategies plan.fields plan.oneofs ∧
      AreFree ((ownedMembers plan.fields plan.oneofs).map Prod.fst) := by
  obtain ⟨name, strategies, hname, hident, hstrategies, honeofs, hfields, hclash⟩ :=
    MessagePlan.ofDecl_eq_ok h
  exact ⟨name, strategies, ⟨hname, (identifier_eq_ok_iff.1 hident).1, hstrategies, honeofs,
    hfields⟩, memberClash?_eq_none_iff.1 hclash⟩

theorem AreFree.membersApart (h : AreFree ((ownedMembers fields oneofs).map Prod.fst))
    (honeofs : ∀ o ∈ oneofs, o.IsNamed) (bits : List String) (hbits : bits ∈ [[], ["has_bits"]])
    (hstored : storedNames items = bits ++ memberStorage fields oneofs)
    (hinherent : inherentNames items =
      ["new", "default_instance"] ++ (memberMethods fields oneofs).map (·.name)) :
    MembersApart fields oneofs items := by
  have hstorage := h.sublist (sublist_memberStorage honeofs)
  have hmethods : AreFree ((memberMethods fields oneofs).map methodName) :=
    ((perm_memberMethods honeofs).append_left _).nodup_iff.2 h
  have hnames : ((memberMethods fields oneofs).map (·.name)).map bareName =
      (memberMethods fields oneofs).map methodName := List.map_map
  refine ⟨⟨bits, hbits, hstored⟩, hinherent, ?_, ?_, ?_, ?_⟩
  · have hown : ∀ bits ∈ [[], ["has_bits"]], (bits.map bareName).Sublist reservedMembers := by
      decide
    rw [hstored, List.map_append]
    exact List.Nodup.sublist ((hown bits hbits).append_right _) hstorage
  · have hown : (["new", "default_instance"].map bareName).Sublist reservedMembers := by decide
    rw [hinherent, List.map_append, hnames]
    exact List.Nodup.sublist (hown.append_right _) hmethods
  · exact fun name hname => hstorage.notMem_reserved _ (List.mem_map_of_mem hname)
  · exact fun g hg => hmethods.notMem_reserved _ (List.mem_map_of_mem hg)

theorem membersApart_of_messageItems (h : messageItems setting scope isProto3 m = .ok items) :
    ∃ name strategies fields oneofs,
      IsPrepared setting scope isProto3 m name strategies fields oneofs ∧
      MembersApart fields oneofs items := by
  obtain ⟨name, _, _, _, _, _⟩ := m
  rw [messageItems] at h
  obtain ⟨plan, hplan, h⟩ := bind_eq_ok_iff.1 h
  obtain ⟨nestedEnums, -, h⟩ := bind_eq_ok_iff.1 h
  obtain ⟨nestedMessages, -, h⟩ := bind_eq_ok_iff.1 h
  obtain ⟨nested, hnested, h⟩ := bind_eq_ok_iff.1 h
  cases h
  obtain ⟨name, strategies, hprepared, hfree⟩ := isPrepared_of_ofDecl hplan
  obtain ⟨hstored, hinherent⟩ := names_nestedModule hnested
  refine ⟨name, strategies, plan.fields, plan.oneofs, hprepared,
    hfree.membersApart hprepared.isNamed (plan.whenBits "has_bits") ?_ ?_ ?_⟩
  · unfold MessagePlan.whenBits
    split <;> simp
  · rw [← storedNames_messagePlan, storedNames, List.flatMap_append]
    exact (congrArg _ hstored).trans (List.append_nil _)
  · rw [← inherentNames_messagePlan, inherentNames, List.flatMap_append]
    exact (congrArg _ hinherent).trans (List.append_nil _)

end Prepared

/-- In the code of a message no two stored fields and no two methods have one name, and fields and
oneofs bring none that every message has. The names listed for a field or oneof are those of what it
stores and of its methods. If a listed name is reserved or taken, the message is refused, and the
report names the owner of the first such name; if none is, the names are not held against it. -/
theorem members_apart (setting : Setting) (scope : Scope) (isProto3 : Bool) (m : MessageDecl) :
    (∀ items, messageItems setting scope isProto3 m = .ok items →
      ∃ name strategies fields oneofs,
        IsPrepared setting scope isProto3 m name strategies fields oneofs ∧
        MembersApart fields oneofs items) ∧
    ∀ name strategies fields oneofs,
      IsPrepared setting scope isProto3 m name strategies fields oneofs →
      (∀ f ∈ fields, ∀ member, member ∈ f.memberNames ↔
        member = bareName f.ident ∨ member ∈ f.accessors.map methodName) ∧
      (∀ o ∈ oneofs, ∀ member, member ∈ o.memberNames ↔
        member = bareName o.names.case ∨
          member ∈ (o.methods (fields.filter o.hasMember)).map methodName) ∧
      (¬ AreFree ((ownedMembers fields oneofs).map Prod.fst) →
        ∃ owner reason, FirstClash (ownedMembers fields oneofs) owner reason ∧
          messageItems setting scope isProto3 m = fail (.unhandled name owner reason)) ∧
      (AreFree ((ownedMembers fields oneofs).map Prod.fst) →
        ∃ plan, MessagePlan.ofDecl setting scope isProto3 m = .ok plan ∧
          plan.fields = fields ∧ plan.oneofs = oneofs) := by
  refine ⟨fun items => membersApart_of_messageItems, fun name strategies fields oneofs h => ?_⟩
  refine ⟨fun f _ member => ?_, fun o ho member => ?_, fun hclash => ?_, fun hfree => ?_⟩
  · rw [f.perm_memberNames.mem_iff]
    refine ⟨.inr, fun hmember => hmember.elim ?_ id⟩
    rintro rfl
    exact List.mem_append_left _ List.mem_cons_self
  · rw [(h.isNamed o ho).map_methodName, (h.isNamed o ho).bareName_case]
    refine ⟨.inr, fun hmember => hmember.elim ?_ id⟩
    rintro rfl
    exact List.mem_cons_self
  · obtain ⟨owner, reason, hfound, hfirst⟩ := exists_firstClash hclash
    have hplan := h.ofDecl_eq
    rw [hfound] at hplan
    refine ⟨owner, reason, hfirst, ?_⟩
    cases m
    rw [messageItems, hplan]
    rfl
  · have hplan := h.ofDecl_eq
    rw [memberClash?_eq_none_iff.2 hfree] at hplan
    exact ⟨_, hplan, rfl, rfl⟩

/-- A field of a number type. -/
def numberField (name : String) (number : Int32) (oneof : Option Int32) : FieldDecl :=
  { name := some name, number := some number, type := some 5, oneofIndex := oneof }

/-- A message with a keyword for the name of a field, and a oneof. -/
def keywordMessage : MessageDecl :=
  { name := some "Box", fields := [numberField "type" 1 none, numberField "side" 2 (some 0)]
    oneofs := [{ name := some "pick" }] }

/-- A message with a field that has the name of another one's setter. -/
def clashingMessage : MessageDecl :=
  { name := some "Box", fields := [numberField "lid" 1 none, numberField "setLid" 2 none] }

theorem members_apart_boxes :
    (∃ items, messageItems (Setting.ofFiles {} []) (Scope.file "a" "a") false keywordMessage =
        .ok items ∧ ((inherentNames items).map bareName).Nodup) ∧
    ∃ strategies fields, IsPrepared (Setting.ofFiles {} []) (Scope.file "a" "a") false
        clashingMessage "Box" strategies fields [] ∧
      FirstClash (ownedMembers fields []) "setLid"
        "generated member `set_lid` is also generated for `lid`" ∧
      messageItems (Setting.ofFiles {} []) (Scope.file "a" "a") false clashingMessage =
        fail (.unhandled "Box" "setLid"
          "generated member `set_lid` is also generated for `lid`") := by
  constructor
  · have hok : (messageItems (Setting.ofFiles {} []) (Scope.file "a" "a") false
        keywordMessage).toOption.isSome = true := by decide +kernel
    cases hitems : messageItems (Setting.ofFiles {} []) (Scope.file "a" "a") false
        keywordMessage with
    | error failure =>
      rw [hitems] at hok
      cases hok
    | ok items =>
      obtain ⟨_, _, _, _, -, hapart⟩ := (members_apart _ _ _ _).1 items hitems
      exact ⟨items, rfl, hapart.nodup_inherent⟩
  · have hprepared : IsPrepared (Setting.ofFiles {} []) (Scope.file "a" "a") false
        clashingMessage "Box" _ _ [] := ⟨rfl, by decide +kernel, rfl, rfl, rfl⟩
    obtain ⟨-, -, hclash, -⟩ := (members_apart _ _ _ _).2 _ _ _ _ hprepared
    obtain ⟨owner, reason, hfirst, hfailed⟩ :=
      hclash fun hfree => absurd hfree (by decide +kernel)
    have hreport : (messageItems (Setting.ofFiles {} []) (Scope.file "a" "a") false
        clashingMessage).map (fun _ => ()) = .error (.error (.unhandled "Box" "setLid"
          "generated member `set_lid` is also generated for `lid`")) := by decide +kernel
    rw [hfailed] at hreport
    cases hreport
    exact ⟨_, _, hprepared, hfirst, hfailed⟩

end Generator

end ProtoWire
