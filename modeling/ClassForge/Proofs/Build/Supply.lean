import ClassForge.Proofs.Code.Bodies
import ClassForge.Proofs.Typing.MemberSearch

/-!
# The items that code needs

A set of keys is closed when it contains, with every key that a task makes, the
keys that the task reads.  If a closed set contains what the nodes of a checked
body refer to, it contains everything that generating the body looks up: the types
of variables, the owners of members that were found on a base, and the members of
the boundaries inside.
-/

namespace ClassForge

variable {type : SourceTy} {resolution : Resolution} {missing : Key → Prop} {params : List SourceTy}

theorem mem_typeKeys {types : List SourceTy} {key : Key} :
    key ∈ typeKeys types ↔ ∃ type ∈ types, ∃ name ∈ type.mentions, key = .type name := by
  simp only [typeKeys, List.mem_map, List.mem_eraseDups, List.mem_flatMap]
  constructor
  · rintro ⟨name, ⟨type, member, mentioned⟩, rfl⟩
    exact ⟨type, member, name, mentioned, rfl⟩
  · rintro ⟨type, member, name, mentioned, rfl⟩
    exact ⟨name, ⟨type, member, mentioned⟩, rfl⟩

/-- With every key that a task makes, a closed set contains what the task reads. -/
def Program.Closed (program : Program) (held : Key → Prop) : Prop :=
  ∀ task ∈ program.tasks, ∀ key ∈ task.outputs, held key →
    ∀ input ∈ task.inputs, held input

/-- The declared types that a type mentions are in a set of keys. -/
def HoldsType (held : Key → Prop) (type : SourceTy) : Prop :=
  ∀ name ∈ type.mentions, held (.type name)

section

variable {held : Key → Prop}

theorem holdsType_of_typeKeys {types : List SourceTy}
    (keys : ∀ key ∈ typeKeys types, held key) : ∀ type ∈ types, HoldsType held type :=
  fun type member name mentioned =>
    keys _ (mem_typeKeys.mpr ⟨type, member, name, mentioned, rfl⟩)

theorem holdsType_of_mentions_eq_nil (none : type.mentions = []) :
    HoldsType held type := by
  intro name mentioned
  rw [none] at mentioned
  cases mentioned

theorem HoldsType.supplies (holds : HoldsType held type)
    (supplies : ∀ key, held key → resolution.Supplies missing key) :
    resolution.SuppliesType missing type :=
  fun name mentioned => supplies _ (holds name mentioned)

/-- A function type holds what its parameters and its result hold. -/
theorem holdsType_delegate {ret : SourceTy} (paramsHold : ∀ param ∈ params, HoldsType held param)
    (retHolds : HoldsType held ret) : HoldsType held (.delegate params ret) := by
  intro name mentioned
  unfold Ty.delegate at mentioned
  split at mentioned
  · obtain ⟨param, member, inParam⟩ := Ty.mem_mentionsList.mp mentioned
    exact paramsHold param member name inParam
  · obtain ⟨type, member, inType⟩ := Ty.mem_mentionsList.mp mentioned
    rcases List.mem_append.mp member with isParam | isRet
    · exact paramsHold type isParam name inType
    · obtain rfl := List.mem_singleton.mp isRet
      exact retHolds name inType

end

/-! ## Members -/

section

variable {module : Module} {image : Image} {context : TypeContext} {program : Program}
variable {held : Key → Prop}
variable {types : Scope SourceTy}

/-- In a closed set, what a type mentions brings in what its supertypes mention. -/
theorem Module.Accepted.holdsType_supertypes (accepted : module.Accepted image context program)
    (closed : program.Closed held) (type : SourceTy)
    (holds : HoldsType held type) :
    ∀ above ∈ context.supertypes type, HoldsType held above := by
  intro above member
  have ofBuiltin : ∀ builtin : Builtin, HoldsType held (.builtin builtin) := fun _ =>
    holdsType_of_mentions_eq_nil rfl
  have ofDeclared : ∀ {name decl}, type = .declared name →
      context.symbols.type? name = some decl →
      ∀ other ∈ decl.base.toList ++ decl.interfaces, HoldsType held other := by
    rintro name decl rfl found
    obtain ⟨cls, isClass, declaration⟩ :=
      accepted.mem_entries (Symbols.mem_entries_of_type? found)
    obtain ⟨rfl, rfl⟩ := ClassDef.of_mem_type declaration
    obtain ⟨core, present, checked⟩ := exists_related_right accepted.classes isClass
    have isTask : Task.declareType core.name core.attrs core.base core.interfaces ∈
        program.tasks :=
      List.mem_flatMap.mpr ⟨core, present, CoreClass.mem_tasks.mpr .type⟩
    have inputs := closed _ isTask (.type cls.name) (by simp [Task.outputs, checked.name])
      (holds _ (by simp [Ty.mentions]))
    rw [← checked.base, ← checked.interfaces]
    exact holdsType_of_typeKeys inputs
  cases TypeContext.above_of_mem_supertypes member with
  | @base _ decl found =>
      rcases decl.base_listed with isObject | listed
      · rw [isObject]
        exact ofBuiltin _
      · exact ofDeclared rfl found _ listed
  | interface found listed => exact ofDeclared rfl found above (List.mem_append_right _ listed)
  | array => exact ofBuiltin _
  | platform listed =>
      -- What the platform says about its own types mentions no declared types.
      obtain rfl | ⟨_, -, builtin, -, rfl⟩ := Image.builtin_above listed
      · exact ofBuiltin _
      · exact ofBuiltin _

/-- What a member on a platform type needs, when its owner is reached from a held type
or the member is static. -/
theorem FoundOn.holdsType {key? : Option Key} {isStatic : Bool}
    (found : FoundOn context type key? isStatic params) (keyless : key? = none)
    (reached : isStatic = true ∨ HoldsType held type) :
    ∀ needed ∈ type :: params, HoldsType held needed := by
  have owner : HoldsType held type := by
    rcases reached with static | holds
    · exact holdsType_of_mentions_eq_nil (found.static keyless static)
    · exact holds
  intro needed member
  rcases List.mem_cons.mp member with rfl | isParam
  · exact owner
  · exact fun name mentioned => owner name (found.params keyless needed isParam name mentioned)

/-- The key of a member that was found is declared; a member without one needs only
held types. -/
theorem MemberUse.Found.needs (accepted : module.Accepted image context program)
    (built : image.Built) (held : Key → Prop) {operands : List Core} {use : MemberUse}
    (found : use.Found context type operands) :
    (∀ key ∈ use.key?, context.symbols.Declares key) ∧
      (program.Closed held → HoldsType held type →
        (∀ operand ∈ operands, HoldsType held operand.type) →
        ∀ needed ∈ use.needs, HoldsType held needed) := by
  have coherent := accepted.coherent
  have plain : context.image.PlainPlatform := accepted.image ▸ built.plainPlatform
  have started : ∀ {owner : SourceTy} {isStatic : Bool},
      (isStatic = true ∨ ∃ receiver ∈ operands, receiver.type = owner) →
      (∀ operand ∈ operands, HoldsType held operand.type) →
      isStatic = true ∨ HoldsType held owner := by
    intro owner isStatic start operandsHold
    refine start.imp_right ?_
    rintro ⟨receiver, member, rfl⟩
    exact operandsHold receiver member
  -- What is needed of a member on a type of the base chain of where the search starts.
  have onChain : ∀ {owner reached : SourceTy} {key? : Option Key} {isStatic : Bool}
      {params : List SourceTy}, reached ∈ context.baseChain owner →
      FoundOn context reached key? isStatic params → key? = none →
      (isStatic = true ∨ ∃ receiver ∈ operands, receiver.type = owner) →
      program.Closed held → (∀ operand ∈ operands, HoldsType held operand.type) →
      ∀ needed ∈ reached :: params, HoldsType held needed := by
    intro owner reached key? isStatic params member foundOn keyless start closed operandsHold
    refine foundOn.holdsType keyless ((started start operandsHold).imp_right fun ownerHolds => ?_)
    exact TypeContext.baseChain_all (accepted.holdsType_supertypes closed) ownerHolds _ member
  cases found with
  | loadField start access | storeField start access =>
      obtain ⟨reached, member, own, static⟩ := TypeContext.accessField_eq_ok access
      obtain ⟨rfl, foundOn⟩ := TypeContext.ownField?_foundOn coherent own
      refine ⟨foundOn.declared, fun closed _ operandsHold needed isNeeded => ?_⟩
      obtain ⟨keyless, listed⟩ := MemberUse.mem_needs.mp isNeeded
      exact onChain member foundOn keyless (static ▸ start) closed operandsHold needed listed
  | getter start access =>
      obtain ⟨property, reached, member, own, static, hasGetter, rfl⟩ :=
        TypeContext.accessGetter_eq_ok access
      obtain ⟨rfl, getter, -⟩ := TypeContext.ownProperty?_foundOn coherent plain own
      have foundOn := getter hasGetter
      refine ⟨foundOn.declared, fun closed _ operandsHold needed isNeeded => ?_⟩
      obtain ⟨keyless, listed⟩ := MemberUse.mem_needs.mp isNeeded
      exact onChain member foundOn keyless (static ▸ start) closed operandsHold needed listed
  | setter start access =>
      obtain ⟨reached, member, own, static, hasSetter⟩ := TypeContext.accessSetter_eq_ok access
      obtain ⟨rfl, -, setter⟩ := TypeContext.ownProperty?_foundOn coherent plain own
      have foundOn := setter hasSetter
      refine ⟨foundOn.declared, fun closed _ operandsHold needed isNeeded => ?_⟩
      obtain ⟨keyless, listed⟩ := MemberUse.mem_needs.mp isNeeded
      exact onChain member foundOn keyless (static ▸ start) closed operandsHold needed listed
  | @call owner name isInstance callee start candidate _ =>
      constructor
      · obtain ⟨-, reached, -, own⟩ :=
          TypeContext.mem_methodCandidates (fun _ (_ : True) _ _ => trivial) candidate
        exact (TypeContext.ownMethods_foundOn plain own).2.declared
      · intro closed _ operandsHold needed isNeeded
        obtain ⟨agrees, reached, reaches, own⟩ :=
          TypeContext.mem_methodCandidates (accepted.holdsType_supertypes closed) candidate
        obtain ⟨rfl, foundOn⟩ := TypeContext.ownMethods_foundOn plain own
        obtain ⟨keyless, listed⟩ := MemberUse.mem_needs.mp isNeeded
        have start : (!callee.isInstance) = true ∨ ∃ receiver ∈ operands, receiver.type = owner := by
          rcases start with static | ⟨receiver, args, rfl, same⟩
          · exact .inl (by simp [agrees, static])
          · exact .inr ⟨receiver, List.mem_cons_self, same⟩
        exact foundOn.holdsType keyless ((started start operandsHold).imp_right reaches) needed
          listed
  | new candidate =>
      obtain ⟨rfl, foundOn⟩ := TypeContext.ctorCandidates_foundOn plain candidate
      refine ⟨foundOn.declared, fun closed typeHolds _ needed isNeeded => ?_⟩
      obtain ⟨keyless, listed⟩ := MemberUse.mem_needs.mp isNeeded
      exact foundOn.holdsType keyless (.inr typeHolds) needed listed

/-! ## Nodes -/

theorem Expr.ChecksInTurn.type_eq {usage : Usage} {scope inner : Scope SourceTy}
    {clauses : List (Name × Expr)} {cores : List (Binder × Core)}
    (inTurn : Expr.ChecksInTurn context usage scope clauses cores inner) :
    ∀ clause ∈ cores, clause.1.type = clause.2.type := by
  induction inTurn with
  | nil => simp
  | cons _ _ ih =>
      intro clause member
      rcases List.mem_cons.mp member with rfl | later
      · rfl
      · exact ih clause later

/-- The types that a node of a checked tree needs are held once those of its parts and
those that it refers to itself are. -/
theorem Expr.Checks.needs (accepted : module.Accepted image context program) (built : image.Built)
    (closed : program.Closed held) {expr : Expr} {core : Core}
    (checked : expr.Checks context types core) (own : HoldsType held core.type)
    (mentioned : ∀ type ∈ core.mentioned, HoldsType held type)
    (parts : ∀ part ∈ core.parts, HoldsType held part.type) :
    ∀ type ∈ core.needs, HoldsType held type := by
  intro type needed
  have ofClause : ∀ {usage clauses cores},
      List.Forall₂ (Expr.ChecksNamed context types usage) clauses cores →
      (∀ part ∈ cores.map Prod.snd, HoldsType held part.type) →
      type ∈ cores.map (fun clause => clause.1.type) → HoldsType held type := by
    intro usage clauses cores named partsHold member
    obtain ⟨clause, present, rfl⟩ := List.mem_map.mp member
    obtain ⟨source, -, holds⟩ := exists_related_left named present
    rw [holds.binder]
    exact partsHold clause.2 (List.mem_map_of_mem present)
  cases checked.elaborates with
  | letPar named =>
      exact ofClause named (fun part member => parts part (List.mem_append_left _ member)) needed
  | letSeq inTurn =>
      obtain ⟨clause, present, rfl⟩ := List.mem_map.mp needed
      rw [inTurn.type_eq clause present]
      exact parts clause.2 (List.mem_append_left _ (List.mem_map_of_mem present))
  | letRec => exact mentioned type needed
  | loop vars named =>
      subst named
      have function : HoldsType held (.delegate (_ : List SourceTy) _) :=
        holdsType_delegate mentioned own
      simp only [Core.needs, List.mem_cons, Binder.of_type, List.map_map] at needed
      rcases needed with rfl | rfl | isVar
      · exact function
      · exact function
      · exact mentioned type isVar
  | lambda =>
      obtain rfl := List.mem_singleton.mp needed
      exact own
  | invoke =>
      obtain rfl := List.mem_singleton.mp needed
      exact parts _ List.mem_cons_self
  | operation _ _ _ acts =>
      cases acts with
      | apply fromParts =>
          intro name isMentioned
          obtain ⟨source, member, inSource⟩ := fromParts type needed name isMentioned
          rcases List.mem_cons.mp member with rfl | member
          · exact own name inSource
          · rcases List.mem_append.mp member with isOperand | isType
            · obtain ⟨operand, present, rfl⟩ := List.mem_map.mp isOperand
              exact parts operand present name inSource
            · exact mentioned source isType name inSource
      | member found => exact (found.needs accepted built held).2 closed own parts type needed
  | _ => cases needed

/-- What a closed set that contains the keys of all nodes of a checked tree supplies. -/
theorem Expr.Checks.supplied (accepted : module.Accepted image context program)
    (built : image.Built) (closed : program.Closed held) {expr : Expr} {core : Core}
    (checked : expr.Checks context types core) {host : Name}
    (keys : ∀ node ∈ core.preorder, ∀ key ∈ node.nodeKeys host, held key)
    (supplies : ∀ key, held key → resolution.Supplies missing key) :
    ∀ node ∈ core.preorder, node.Supplied resolution missing host := by
  intro node member
  have start : Checkpoint.Accepted context ⟨types, expr, core⟩ := checked
  obtain ⟨inner, reaches, rfl⟩ := start.exists_reaches member
  have inside := reaches.preorder_subset
  have typeHolds : ∀ other ∈ core.preorder, HoldsType held other.type := by
    intro other present
    refine holdsType_of_typeKeys (fun key isKey => keys other present key ?_) other.type
      (List.mem_singleton_self _)
    simp [Core.nodeKeys, isKey]
  have needs := (reaches.accepted start : Expr.Checks _ _ _ _).needs accepted built closed
    (typeHolds _ member)
    (holdsType_of_typeKeys fun key isKey =>
      keys _ member key (by simp [Core.nodeKeys, isKey]))
    fun part isPart => typeHolds part
      (inside (Core.mem_preorder_of_mem_parts isPart part.mem_preorder_self))
  refine ⟨fun type isNeeded => (needs type isNeeded).supplies supplies, ?_, ?_⟩
  · exact fun key isKey => supplies key
      (keys _ member key (by simp [Core.nodeKeys, Option.mem_def.mp isKey]))
  · exact fun key isKey => supplies key (keys _ member key (by simp [Core.nodeKeys, isKey]))

end

end ClassForge
