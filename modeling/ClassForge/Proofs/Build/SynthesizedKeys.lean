import ClassForge.Proofs.Build.MethodModules
import ClassForge.Proofs.Typing.CheckerFaults

/-!
# Keys of what boundaries move their code into

A lambda and a loop become a class with members, a `try` and a `pin` block a static method.  Their
keys are made from the class that the code stands in and the number of the node.  Such a name ends
in the digits of the number, and what stands before them does not end in a digit; so a key tells
the number of its node, whatever the class is called.  No two boundaries of a module share a number,
so no two synthesized keys are equal.
-/

namespace ClassForge

/-! ## Numbers at the end of a name -/

/-- The number that the digits at the end of a name stand for. -/
def trailingNumber (name : Name) : Nat :=
  Nat.ofDigitChars 10 (name.toList.reverse.takeWhile Char.isDigit).reverse 0

/-- A number is read back if no digit stands before it. -/
theorem trailingNumber_append {kind : String} {last : Char}
    (ends : kind.toList.getLast? = some last) (noDigit : last.isDigit = false) (front : Name)
    (id : NodeId) : trailingNumber (front ++ kind ++ toString id) = id := by
  obtain ⟨rest, shape⟩ : ∃ rest, kind.toList = rest ++ [last] :=
    ⟨_, (List.dropLast_append_getLast? last ends).symm⟩
  have chars : (front ++ kind ++ toString id).toList.reverse =
      (Nat.toDigits 10 id).reverse ++ last :: (rest.reverse ++ front.toList.reverse) := by
    change (front ++ kind ++ Nat.repr id).toList.reverse = _
    simp [shape, Nat.toList_repr]
  have digits : ∀ digit ∈ (Nat.toDigits 10 id).reverse, digit.isDigit = true :=
    fun _ member =>
      Nat.isDigit_of_mem_toDigits (by decide) (by decide) (List.mem_reverse.mp member)
  rw [trailingNumber, chars, List.takeWhile_append_of_pos digits, List.takeWhile_cons, noDigit]
  simp

/-- The number in a synthesized key: at the end of the name of a class, or at the end of the name of
a static method. -/
def Key.nodeNumber : Key → NodeId
  | method key => trailingNumber (if key.isInstance then key.owner else key.name)
  | key => trailingNumber key.owner

/-! ## Keys of boundaries -/

/-- What checking finds out about a boundary: the captured variables with their types, and the types
of the arrays that are pinned. -/
structure BoundaryTypes where
  captures : List Param
  arrays : List SourceTy

/-- Every captured variable is listed once. -/
def BoundaryTypes.Distinct (types : BoundaryTypes) : Prop :=
  (types.captures.map Param.name).Nodup

/-- Keys of a class behind a function. -/
def functionKeys (owner : Name) (captures : List Param) (params : List SourceTy) : List Key :=
  .type owner ::
    captures.map (fun capture => .field ⟨owner, capture.name, .cell capture.type⟩) ++
    [.ctor ⟨owner, cellTypes captures⟩, .method ⟨owner, Closure.invokeName, true, params⟩,
      .completed owner]

namespace Expr

/-- Keys of what a node moves its code into, if it is a boundary. -/
def synthesizedKeys (host : Name) (typing : NodeId → BoundaryTypes) : Expr → List Key
  | lambda id params _ =>
      functionKeys (host ++ "$closure" ++ toString id) (typing id).captures (params.map Param.type)
  | loop id _ vars _ _ =>
      functionKeys (host ++ "$loop" ++ toString id) (typing id).captures
        (vars.map fun (param, _) => param.type)
  | tryCatch id _ _ | tryFinally id _ _ _ =>
      [.method ⟨host, "$try" ++ toString id, false, cellTypes (typing id).captures⟩]
  | pin id _ _ =>
      [.method ⟨host, "$pin" ++ toString id, false,
        cellTypes (typing id).captures ++ (typing id).arrays⟩]
  | _ => []

end Expr

/-- Keys of what the boundaries of a module move their code into. -/
def Module.synthesizedKeys (module : Module) (typing : NodeId → BoundaryTypes) : List Key :=
  module.classes.flatMap fun cls => cls.nodes.flatMap (Expr.synthesizedKeys cls.name typing)

section Keys

variable {owner host : Name} {captures : List Param} {params : List SourceTy} {key : Key}
variable {typing : NodeId → BoundaryTypes} {expr : Expr}

theorem mem_functionKeys : key ∈ functionKeys owner captures params ↔
    key = .type owner ∨
      (∃ capture ∈ captures, .field ⟨owner, capture.name, .cell capture.type⟩ = key) ∨
      key = .ctor ⟨owner, cellTypes captures⟩ ∨
      key = .method ⟨owner, Closure.invokeName, true, params⟩ ∨ key = .completed owner := by
  simp [functionKeys]

/-- The keys of a function differ from each other. -/
theorem functionKeys_nodup (distinct : (captures.map Param.name).Nodup) :
    (functionKeys owner captures params).Nodup := by
  have fields : (captures.map fun capture =>
      Key.field ⟨owner, capture.name, .cell capture.type⟩).Nodup := by
    rw [List.Nodup, List.pairwise_map] at distinct ⊢
    exact distinct.imp fun different same =>
      different (congrArg FieldKey.name (Key.field.inj same))
  simp [functionKeys, List.nodup_append, fields]

/-- The keys of a function tell the number of its class. -/
theorem nodeNumber_of_mem_functionKeys (isKey : key ∈ functionKeys owner captures params) :
    key.nodeNumber = trailingNumber owner := by
  rcases mem_functionKeys.mp isKey with rfl | ⟨_, -, rfl⟩ | rfl | rfl | rfl <;> rfl

/-- A synthesized key tells the number of its node. -/
theorem Expr.nodeNumber_of_mem (isKey : key ∈ expr.synthesizedKeys host typing) :
    expr.nodeId? = some key.nodeNumber := by
  have ofFunction : ∀ (kind : String) {last : Char} {id : NodeId} {params : List SourceTy},
      kind.toList.getLast? = some last → last.isDigit = false →
      key ∈ functionKeys (host ++ kind ++ toString id) (typing id).captures params →
      some id = some key.nodeNumber := by
    intro kind last id params ends noDigit isKey
    rw [nodeNumber_of_mem_functionKeys isKey, trailingNumber_append ends noDigit]
  have ofBlock : ∀ (kind : String) {last : Char} {id : NodeId} {params : List SourceTy},
      kind.toList.getLast? = some last → last.isDigit = false →
      key ∈ [Key.method ⟨host, kind ++ toString id, false, params⟩] →
      some id = some key.nodeNumber := by
    intro kind last id params ends noDigit isKey
    obtain rfl := List.mem_singleton.mp isKey
    have number := trailingNumber_append ends noDigit "" id
    rw [String.empty_append] at number
    exact congrArg some number.symm
  cases expr with
  | lambda => exact ofFunction "$closure" rfl rfl isKey
  | loop => exact ofFunction "$loop" rfl rfl isKey
  | tryCatch | tryFinally => exact ofBlock "$try" rfl rfl isKey
  | pin => exact ofBlock "$pin" rfl rfl isKey
  | _ => cases isKey

/-- The keys of a node differ from each other. -/
theorem Expr.synthesizedKeys_nodup (distinct : ∀ id, (typing id).Distinct) :
    (expr.synthesizedKeys host typing).Nodup := by
  cases expr with
  | lambda id | loop id => exact functionKeys_nodup (distinct id)
  | tryCatch | tryFinally | pin => exact List.nodup_singleton _
  | _ => exact List.nodup_nil

/-- The keys of a node only depend on what is found out about the node. -/
theorem Expr.synthesizedKeys_congr {other : NodeId → BoundaryTypes}
    (same : ∀ id ∈ expr.nodeId?, typing id = other id) :
    expr.synthesizedKeys host typing = expr.synthesizedKeys host other := by
  cases expr with
  | lambda id | loop id | tryCatch id | tryFinally id | pin id =>
      simp only [synthesizedKeys, same id rfl]
  | _ => rfl

/-- A synthesized key is that of a member of a synthesized class, or that of a static method whose
name starts with a sign that no accessor starts with. -/
theorem Expr.type_mem_or_block (isKey : key ∈ expr.synthesizedKeys host typing) :
    .type key.owner ∈ expr.synthesizedKeys host typing ∨
      ∃ method, key = .method method ∧ method.name.toList.head? = some '$' := by
  have ofFunction : ∀ {owner : Name} {captures : List Param} {params : List SourceTy},
      key ∈ functionKeys owner captures params →
      .type key.owner ∈ functionKeys owner captures params := by
    intro owner captures params isKey
    have owned : key.owner = owner := by
      rcases mem_functionKeys.mp isKey with rfl | ⟨_, -, rfl⟩ | rfl | rfl | rfl <;> rfl
    rw [owned]
    exact List.mem_cons_self
  cases expr with
  | lambda | loop => exact .inl (ofFunction isKey)
  | tryCatch | tryFinally | pin =>
      obtain rfl := List.mem_singleton.mp isKey
      refine .inr ⟨_, rfl, ?_⟩
      simp
  | _ => cases isKey

end Keys

/-! ## Checked nodes -/

section Checked

variable {context : TypeContext} {scope : Scope SourceTy} {expr : Expr} {core : Core}

/-- Keys of what a checked node moves its code into. -/
def Core.boundaryKeys (host : Name) (core : Core) : List Key :=
  (core.liftedTasks host).flatMap Task.outputs

theorem Closure.outputs_tasks (closure : Closure) (host : Name) :
    (closure.tasks host).flatMap Task.outputs =
      functionKeys closure.typeName closure.captures closure.paramTypes := by
  have fields : (closure.fieldKeys.map fun key => Task.declareField key .publicInstance).flatMap
      Task.outputs = closure.fieldKeys.map .field := by
    rw [List.flatMap_map, List.map_eq_flatMap]
    rfl
  unfold Closure.tasks functionKeys
  rw [List.cons_append, List.flatMap_cons, List.flatMap_append, fields, Closure.fieldKeys,
    List.map_map]
  rfl

theorem Core.boundaryKeys_of_closure {host : Name} {closure : Closure}
    (isClosure : core.closure? host = some closure) : core.boundaryKeys host =
      functionKeys closure.typeName closure.captures closure.paramTypes := by
  have noBlock : core.block? host = none := by
    cases core <;> first | rfl | cases isClosure
  simp [boundaryKeys, liftedTasks, isClosure, noBlock, Closure.outputs_tasks]

theorem Core.boundaryKeys_of_block {host : Name} {block : Block}
    (isBlock : core.block? host = some block) :
    core.boundaryKeys host = [.method block.key] := by
  have noClosure : core.closure? host = none := by
    cases core <;> first | rfl | cases isBlock
  simp [boundaryKeys, liftedTasks, isBlock, noClosure, Block.tasks, Task.outputs]

/-- What a checked node moves its code into has the keys that are synthesized for the node, whatever
is found out about other nodes. -/
theorem Expr.Checks.boundaryKeys (checked : Checks context scope expr core) (host : Name) :
    ∃ types : BoundaryTypes, types.Distinct ∧ ∀ typing : NodeId → BoundaryTypes,
      (∀ id ∈ expr.nodeId?, typing id = types) →
        core.boundaryKeys host = expr.synthesizedKeys host typing := by
  cases checked.elaborates with
  | @lambda id params body bodyCore captures _ crosses =>
      refine ⟨⟨captures, []⟩, distinct_of_crosses ((sorted_usage body).moved _) crosses,
        fun typing found => ?_⟩
      have params : (params.map fun param => Binder.of body.usage param.name param.type).map
          Binder.type = params.map Param.type := by rw [List.map_map]; rfl
      rw [synthesizedKeys, found id rfl, Core.boundaryKeys_of_closure rfl, Closure.paramTypes]
      exact congrArg (functionKeys _ captures) params
  | @loop id name vars ret body cores bodyCore function captures clauses _ _ _ crosses =>
      refine ⟨⟨captures, []⟩, distinct_of_crosses ((sorted_usage body).moved _) crosses,
        fun typing found => ?_⟩
      have params : (cores.map (·.1)).map Binder.type = vars.map fun clause => clause.1.type := by
        rw [List.map_map]
        exact map_eq_of_forall₂ _ _ clauses fun _ _ checked => congrArg Binder.type checked.binder
      rw [synthesizedKeys, found id rfl, Core.boundaryKeys_of_closure rfl, Closure.paramTypes]
      exact congrArg (functionKeys _ captures) params
  | @tryCatch id body catches bodyCore catchCores captures _ _ crosses =>
      refine ⟨⟨captures, []⟩, distinct_of_crosses ((sorted_usage body).guarded _ _) crosses,
        fun typing found => ?_⟩
      rw [synthesizedKeys, found id rfl, Core.boundaryKeys_of_block rfl, Block.key, Block.params,
        List.append_nil]
  | @tryFinally id body final catches bodyCore finalCore catchCores captures _ _ _ crosses =>
      refine ⟨⟨captures, []⟩, distinct_of_crosses ((sorted_usage body).guarded _ _) crosses,
        fun typing found => ?_⟩
      rw [synthesizedKeys, found id rfl, Core.boundaryKeys_of_block rfl, Block.key, Block.params,
        List.append_nil]
  | @pin id arrays body cores bodyCore captures _ _ crosses =>
      refine ⟨⟨captures, cores.map fun array => array.2.type⟩,
        distinct_of_crosses ((sorted_usage body).moved _) crosses, fun typing found => ?_⟩
      rw [synthesizedKeys, found id rfl, Core.boundaryKeys_of_block rfl]
      rfl
  | operation isOperation _ _ acts =>
      refine ⟨⟨[], []⟩, List.nodup_nil, fun typing _ => ?_⟩
      cases acts <;> cases expr <;> first | rfl | cases isOperation
  | _ => exact ⟨⟨[], []⟩, List.nodup_nil, fun _ _ => rfl⟩

end Checked

/-! ## Keys of a module -/

section Module

variable {module : Module} {symbols : Symbols} {typing : NodeId → BoundaryTypes}

/-- The nodes of a module as it is written, with the classes that they stand in. -/
def Module.nodes (module : Module) : List (Name × Expr) :=
  module.classes.flatMap fun cls => cls.nodes.map fun node => (cls.name, node)

theorem Module.synthesizedKeys_eq : module.synthesizedKeys typing =
    module.nodes.flatMap fun node => node.2.synthesizedKeys node.1 typing := by
  simp only [synthesizedKeys, nodes, List.flatMap_assoc, List.flatMap_map]

theorem Module.nodes_numbers : module.nodes.filterMap (fun node => node.2.nodeId?) =
    module.classes.flatMap ClassDef.boundaryIds := by
  unfold nodes ClassDef.nodes ClassDef.boundaryIds Expr.boundaryIds
  simp only [List.filterMap_flatMap, List.filterMap_map, Function.comp_def]

/-- No two keys that are synthesized for a module are equal. -/
theorem Module.synthesizedKeys_nodup (declared : Symbols.ofModule module = .ok symbols)
    (distinct : ∀ id, (typing id).Distinct) : (module.synthesizedKeys typing).Nodup := by
  obtain ⟨-, ids, -⟩ := Symbols.ofModule_eq_ok.mp declared
  rw [← nodes_numbers, List.Nodup, List.pairwise_filterMap] at ids
  rw [synthesizedKeys_eq, List.nodup_flatMap]
  refine ⟨fun node _ => Expr.synthesizedKeys_nodup distinct, ids.imp fun {first second} apart => ?_⟩
  intro key inFirst inSecond
  exact apart _ (Expr.nodeNumber_of_mem inFirst) _ (Expr.nodeNumber_of_mem inSecond) rfl

end Module

/-! ## Keys of a checked program -/

/-- Keys of what the boundaries of a program move their code into. -/
def Program.boundaryKeys (program : Program) : List Key :=
  program.flatMap fun cls => (Core.preorderAll cls.roots).flatMap (Core.boundaryKeys cls.name)

section Programs

variable {module : Module} {image : Image} {context : TypeContext} {program : Program}
variable {symbols : Symbols}
variable {key : Key} {typing : NodeId → BoundaryTypes}

/-- What was found out about nodes of different numbers can be told by their numbers. -/
theorem exists_typing {sources : List (Name × Expr)} {nodes : List (Name × Core)}
    (checked : List.Forall₂ (fun source node => node.1 = source.1 ∧
      Expr.ChecksSomewhere context source.2 node.2) sources nodes)
    (distinct : (sources.filterMap fun source => source.2.nodeId?).Nodup) :
    ∃ typing : NodeId → BoundaryTypes, (∀ id, (typing id).Distinct) ∧
      nodes.flatMap (fun node => node.2.boundaryKeys node.1) =
        sources.flatMap fun source => source.2.synthesizedKeys source.1 typing := by
  induction checked with
  | nil => exact ⟨fun _ => ⟨[], []⟩, fun _ => List.nodup_nil, rfl⟩
  | @cons source node sources nodes holds _ ih =>
      obtain ⟨sameHost, scope, holds⟩ := holds
      obtain ⟨types, typesDistinct, isTyped⟩ := holds.boundaryKeys source.1
      rw [List.filterMap_cons] at distinct
      simp only [List.flatMap_cons, sameHost]
      cases isId : source.2.nodeId? with
      | none =>
          rw [isId] at distinct
          obtain ⟨typing, allDistinct, same⟩ := ih distinct
          rw [isId] at isTyped
          exact ⟨typing, allDistinct, by rw [same, isTyped typing (by simp)]⟩
      | some id =>
          rw [isId] at distinct
          obtain ⟨isNew, distinct⟩ := List.nodup_cons.mp distinct
          obtain ⟨typing, allDistinct, same⟩ := ih distinct
          refine ⟨Function.update typing id types, fun other => ?_, ?_⟩
          · by_cases isOther : other = id
            · rw [isOther, Function.update_self]
              exact typesDistinct
            · rw [Function.update_of_ne isOther]
              exact allDistinct other
          · rw [same, isTyped (Function.update typing id types)]
            · refine congrArg _ (List.flatMap_congr fun other member => ?_)
              refine Expr.synthesizedKeys_congr fun otherId isOther => ?_
              refine (Function.update_of_ne (fun same => isNew ?_) _ _).symm
              exact List.mem_filterMap.mpr ⟨other, member, same ▸ isOther⟩
            · rintro _ isOther
              cases isId.symm.trans isOther
              exact Function.update_self ..

/-- What the boundaries of an accepted module move their code into has the synthesized keys. -/
theorem Module.Accepted.boundaryKeys (accepted : module.Accepted image context program) :
    ∃ typing : NodeId → BoundaryTypes, (∀ id, (typing id).Distinct) ∧
      program.boundaryKeys = module.synthesizedKeys typing := by
  have checked : List.Forall₂ (fun source node => node.1 = source.1 ∧
        Expr.ChecksSomewhere context source.2 node.2)
      (module.classes.flatMap fun cls =>
        (cls.checkedRoots.flatMap Expr.preorder).map fun node => (cls.name, node))
      (program.flatMap fun cls => (Core.preorderAll cls.roots).map fun node => (cls.name, node)) :=
    forall₂_flatMap accepted.classes fun cls _ core holds => by
      rw [List.forall₂_map_left_iff, List.forall₂_map_right_iff]
      exact holds.nodes.imp fun _ _ checked => ⟨holds.name, checked⟩
  have numbers : ∀ cls : ClassDef,
      (cls.checkedRoots.flatMap Expr.preorder).filterMap Expr.nodeId? =
        cls.nodes.filterMap Expr.nodeId? := by
    intro cls
    rw [List.filterMap_eq_flatMap_toList, List.filterMap_eq_flatMap_toList]
    exact cls.flatMap_checkedRoots _ rfl
  obtain ⟨-, ids, -⟩ := Symbols.ofModule_eq_ok.mp accepted.symbols
  obtain ⟨typing, distinct, same⟩ := exists_typing checked (by
    simpa only [List.filterMap_flatMap, List.filterMap_map, Function.comp_def, numbers, nodes,
      ← nodes_numbers] using ids)
  refine ⟨typing, distinct, ?_⟩
  simp only [List.flatMap_assoc, List.flatMap_map] at same
  rw [Program.boundaryKeys, same]
  refine List.flatMap_congr fun cls _ => ?_
  rw [← List.flatMap_assoc]
  exact cls.flatMap_checkedRoots _ rfl

/-! ## Keys of a build -/

theorem CoreProperty.outputs_tasks (property : CoreProperty) (host : Name) :
    (property.tasks host).flatMap Task.outputs = (Task.declareProperty property).outputs := by
  have accessor : ∀ (key? : Option MethodKey) (routine? : Option Routine),
      (accessorTask? host key? routine?).toList.flatMap Task.outputs = [] := by
    intro key? routine?
    cases key? <;> cases routine? <;> rfl
  rw [tasks, List.flatMap_cons, List.flatMap_append, accessor, accessor]
  simp

/-- Building a class adds what it declares, what its boundaries move their code into, and the
completed class. -/
theorem TypeContext.ChecksClass.outputs {cls : ClassDef} {core : CoreClass}
    (checked : ChecksClass context cls core) :
    core.tasks.flatMap Task.outputs = cls.declarations.map Prod.fst ++
      (Core.preorderAll core.roots).flatMap (Core.boundaryKeys core.name) ++
      [.completed cls.name] := by
  have fields : (cls.fields.map fun field =>
        Task.declareField (field.key cls.name) field.attrs).flatMap Task.outputs =
      cls.fields.map fun field => .field (field.key cls.name) := by
    rw [List.flatMap_map, List.map_eq_flatMap]
    rfl
  have methods : (core.methods.flatMap (CoreMethod.tasks cls.name)).flatMap Task.outputs =
      cls.methods.map fun method => .method (method.key cls.name) := by
    rw [List.flatMap_assoc, List.map_eq_flatMap]
    refine flatMap_eq_of_forall₂ checked.methods fun method _ other holds => ?_
    rw [CoreMethod.tasks, List.flatMap_cons, ← holds.key]
    cases other.routine <;> rfl
  have ctors : (core.ctors.flatMap (CoreCtor.tasks cls.name)).flatMap Task.outputs =
      cls.allCtors.map fun ctor => .ctor (ctor.key cls.name) := by
    rw [List.flatMap_assoc, List.map_eq_flatMap]
    refine flatMap_eq_of_forall₂ checked.ctors fun ctor _ other holds => ?_
    rw [← holds.key]
    rfl
  have properties : (core.properties.flatMap (CoreProperty.tasks cls.name)).flatMap Task.outputs =
      cls.properties.flatMap fun property =>
        (ClassDef.declarations.ofProperty cls property).map Prod.fst := by
    rw [List.flatMap_assoc]
    refine flatMap_eq_of_forall₂ checked.properties fun property _ other holds => ?_
    rw [CoreProperty.outputs_tasks, Task.outputs, holds.key, getterKey?_eq holds,
      setterKey?_eq holds, ClassDef.declarations.ofProperty]
    simp only [List.map_cons, List.map_append, List.map_map, List.cons_append]
    rfl
  unfold CoreClass.tasks ClassDef.declarations
  simp only [checked.name, checked.fields, List.flatMap_append, List.flatMap_cons, fields, methods,
    ctors, properties]
  simp only [List.map_append, List.map_cons, List.map_map, List.map_flatMap, List.flatMap_assoc,
    List.flatMap_nil, List.append_nil]
  rfl

/-- Building a program adds what the module declares, what its boundaries move their code into, and
the completed classes. -/
theorem Program.outputs_perm {classes : List ClassDef}
    (checked : List.Forall₂ (TypeContext.ChecksClass context) classes program) :
    (program.tasks.flatMap Task.outputs).Perm
      ((classes.flatMap ClassDef.declarations).map Prod.fst ++ program.boundaryKeys ++
        classes.map fun cls => .completed cls.name) := by
  unfold Program.tasks Program.boundaryKeys
  induction checked with
  | nil => exact .nil
  | cons holds _ ih =>
      refine List.perm_iff_count.mpr fun key => ?_
      have rest := ih.count_eq key
      simp only [List.flatMap_cons, List.flatMap_append, List.map_append, List.map_cons,
        List.count_append, List.count_cons, List.count_nil, holds.outputs] at rest ⊢
      omega

/-- What a class declares belongs to it.  It is the class, a method that is written, an accessor of
a property or another member. -/
theorem ClassDef.owner_of_declarations {cls : ClassDef}
    (isKey : key ∈ cls.declarations.map Prod.fst) :
    key.owner = cls.name ∧ (∀ name, key ≠ .completed name) ∧
      ∀ method, key = .method method → method.name.toList.head? = some '$' →
        ∃ written ∈ cls.methods, key = .method (written.key cls.name) := by
  obtain ⟨⟨_, decl⟩, declared, rfl⟩ := List.mem_map.mp isKey
  have accessor : ∀ name : Name, (getterName name).toList.head? ≠ some '$' ∧
      (setterName name).toList.head? ≠ some '$' := by
    intro name
    simp [getterName, setterName]
  rcases mem_declarations.mp declared with ⟨rfl, -⟩ | ⟨_, -, rfl, -⟩ | ⟨method, isMethod, rfl, -⟩ |
    ⟨_, -, rfl, -⟩ | ⟨property, -, ofProperty⟩
  · exact ⟨rfl, by rintro _ ⟨⟩, by rintro _ ⟨⟩⟩
  · exact ⟨rfl, by rintro _ ⟨⟩, by rintro _ ⟨⟩⟩
  · exact ⟨rfl, by rintro _ ⟨⟩, fun _ _ _ => ⟨method, isMethod, rfl⟩⟩
  · exact ⟨rfl, by rintro _ ⟨⟩, by rintro _ ⟨⟩⟩
  · rcases mem_ofProperty.mp ofProperty with ⟨rfl, -⟩ | ⟨getter, isGetter, rfl, -⟩ |
      ⟨setter, isSetter, rfl, -⟩
    · exact ⟨rfl, by rintro _ ⟨⟩, by rintro _ ⟨⟩⟩
    · obtain ⟨_, -, rfl⟩ := Option.map_eq_some_iff.mp isGetter
      refine ⟨rfl, by rintro _ ⟨⟩, ?_⟩
      rintro _ ⟨⟩ isSign
      exact ((accessor property.name).1 isSign).elim
    · obtain ⟨_, -, rfl⟩ := Option.map_eq_some_iff.mp isSetter
      refine ⟨rfl, by rintro _ ⟨⟩, ?_⟩
      rintro _ ⟨⟩ isSign
      exact ((accessor property.name).2 isSign).elim

theorem Module.type_mem_or_block (isKey : key ∈ module.synthesizedKeys typing) :
    .type key.owner ∈ module.synthesizedKeys typing ∨
      ∃ method, key = .method method ∧ method.name.toList.head? = some '$' := by
  rw [synthesizedKeys_eq] at isKey ⊢
  obtain ⟨node, isNode, isKey⟩ := List.mem_flatMap.mp isKey
  exact (Expr.type_mem_or_block isKey).imp_left fun isType =>
    List.mem_flatMap.mpr ⟨node, isNode, isType⟩

/-- A class or a method that is written has a synthesized key. -/
def Module.SpellsSynthesized (module : Module) (typing : NodeId → BoundaryTypes) : Prop :=
  ∃ cls ∈ module.classes, .type cls.name ∈ module.synthesizedKeys typing ∨
    ∃ method ∈ cls.methods, .method (method.key cls.name) ∈ module.synthesizedKeys typing

/-- No key is added twice unless something that is written has a synthesized key. -/
theorem Module.Accepted.outputs_nodup (accepted : module.Accepted image context program)
    (distinct : ∀ id, (typing id).Distinct)
    (synthesized : program.boundaryKeys = module.synthesizedKeys typing)
    (apart : ¬module.SpellsSynthesized typing) : (program.tasks.flatMap Task.outputs).Nodup := by
  obtain ⟨-, -, entries, keyed⟩ := Symbols.ofModule_eq_ok.mp accepted.symbols
  have declared : ((module.classes.flatMap ClassDef.declarations).map Prod.fst).Nodup := by
    rw [← entries]
    exact keyed
  have completed : (module.classes.map fun cls => Key.completed cls.name).Nodup := by
    rw [List.map_flatMap, List.nodup_flatMap] at declared
    rw [List.Nodup, List.pairwise_map]
    refine declared.2.imp fun {first second} different same => ?_
    refine different (List.mem_map_of_mem List.mem_cons_self) ?_
    exact List.mem_map.mpr ⟨_, List.mem_cons_self, congrArg Key.type (Key.completed.inj same).symm⟩
  have ofClass : ∀ {key}, key ∈ (module.classes.flatMap ClassDef.declarations).map Prod.fst →
      ∃ cls ∈ module.classes, key ∈ cls.declarations.map Prod.fst := by
    intro key isKey
    rw [List.map_flatMap] at isKey
    exact List.mem_flatMap.mp isKey
  have noType : ∀ cls ∈ module.classes, .type cls.name ∉ module.synthesizedKeys typing :=
    fun cls isClass isType => apart ⟨cls, isClass, .inl isType⟩
  rw [(Program.outputs_perm accepted.classes).nodup_iff, List.append_assoc, List.nodup_append',
    List.nodup_append', synthesized]
  refine ⟨declared, ⟨Module.synthesizedKeys_nodup accepted.symbols distinct, completed, ?_⟩, ?_⟩
  -- A synthesized class is not one that is written.
  · intro key isKey isCompleted
    obtain ⟨cls, isClass, rfl⟩ := List.mem_map.mp isCompleted
    rcases type_mem_or_block isKey with isType | ⟨_, ⟨⟩, -⟩
    exact noType cls isClass isType
  · intro key isDeclared isOther
    obtain ⟨cls, isClass, ofDeclarations⟩ := ofClass isDeclared
    obtain ⟨owned, notCompleted, written⟩ := ClassDef.owner_of_declarations ofDeclarations
    rcases List.mem_append.mp isOther with isKey | isCompleted
    · rcases type_mem_or_block isKey with isType | ⟨method, isMethod, isSign⟩
      · exact noType cls isClass (owned ▸ isType)
      · obtain ⟨method, isWritten, rfl⟩ := written method isMethod isSign
        exact apart ⟨cls, isClass, .inr ⟨method, isWritten, isKey⟩⟩
    · obtain ⟨_, -, rfl⟩ := List.mem_map.mp isCompleted
      exact notCompleted _ rfl

/-! ## Keys that are added twice -/

open Schedule

/-- Steps are refused for a key that is added twice only if a step lists it twice or two of
them add it. -/
theorem Schedule.repeats_of_duplicate {τ : Type} {steps : List (Step τ)} {first second : String}
    (refused : validate steps .empty = .error (.duplicateOutput key first second)) :
    ¬((∀ step ∈ steps, step.outputs.Nodup) ∧ steps.Pairwise Disjoint) := by
  rintro ⟨once, disjoint⟩
  unfold validate at refused
  rcases bind_eq_error.mp refused with producers | ⟨⟨⟩, -, inputs⟩
  · rw [checkProducers_eq_ok.mpr ⟨once, disjoint, by simp⟩] at producers
    cases producers
  · obtain ⟨_, -, ofStep⟩ := exists_of_forM_eq_error inputs
    obtain ⟨_, -, found⟩ := exists_of_forM_eq_error ofStep
    split at found <;> cases found

/-- The synthesized keys of a module differ from each other, whatever is found out about its
boundaries.  They are the keys that a build of the module adds for its boundaries; and a build is
refused for a key that is added twice only if a class or a method that is written has one of
them. -/
theorem Module.synthesizedKeys_distinct (declared : Symbols.ofModule module = .ok symbols) :
    (∀ typing : NodeId → BoundaryTypes, (∀ id, (typing id).Distinct) →
      (module.synthesizedKeys typing).Nodup) ∧
    (∀ image program, module.check image = .ok program →
      ∃ typing : NodeId → BoundaryTypes, (∀ id, (typing id).Distinct) ∧
        program.boundaryKeys = module.synthesizedKeys typing) ∧
    ∀ image options key first second, image.Built →
      (module.compile options image).1 = .error (.duplicateOutput key first second) →
      ∃ program, ∃ typing : NodeId → BoundaryTypes, module.check image = .ok program ∧
        program.boundaryKeys = module.synthesizedKeys typing ∧ module.SpellsSynthesized typing := by
  refine ⟨fun typing distinct => module.synthesizedKeys_nodup declared distinct, ?_, ?_⟩
  · intro image program checked
    obtain ⟨context, accepted⟩ := Module.accepted_of_check checked
    exact accepted.boundaryKeys
  · intro image options key first second built failed
    cases checked : module.check image with
    | error diagnostic =>
        simp only [compile, checked] at failed
        cases failed
        exact (module.check_sound image _ checked trivial).elim
    | ok program =>
        rw [Module.compile_of_check checked] at failed
        obtain ⟨context, accepted⟩ := Module.accepted_of_check checked
        obtain ⟨typing, distinct, same⟩ := accepted.boundaryKeys
        refine ⟨program, typing, rfl, same, ?_⟩
        by_contra apart
        have single := accepted.outputs_nodup distinct same apart
        have disjoint : (program.steps options.tailCalls).Pairwise Disjoint := by
          rw [Program.steps, List.pairwise_map]
          exact (List.nodup_flatMap.mp single).2.imp fun different key isFirst isSecond =>
            different (Task.mem_step_outputs.mp isFirst) (Task.mem_step_outputs.mp isSecond)
        rcases accepted.build_error built (Prod.ext failed rfl) with ⟨-, invalid | stuck⟩ | excused
        · exact repeats_of_duplicate invalid ⟨Program.nodup_outputs, disjoint⟩
        · obtain ⟨_, other⟩ := order_error stuck
          cases other
        · cases excused

end Programs

/-- A module in which a class is written that has the name of the class behind a function. -/
def Module.spelled : Module where
  classes := Module.counter.classes ++ [
    { name := "Counter$closure0"
      attrs := .publicClass
      base := none
      interfaces := []
      fields := []
      methods := []
      ctors := []
      properties := [] }]

theorem Module.spelled_keys_distinct :
    (∃ symbols, Symbols.ofModule Module.spelled = .ok symbols) ∧
    (Module.spelled.synthesizedKeys fun _ => ⟨[⟨"n", .prim .int32⟩], []⟩).Nodup ∧
    ∃ key first second, Image.library.Built ∧
      (Module.spelled.compile {} .library).1 = .error (.duplicateOutput key first second) ∧
      ∃ typing, Module.spelled.SpellsSynthesized typing := by
  have collects : (Symbols.ofModule Module.spelled).isOk = true := by decide +kernel
  obtain ⟨symbols, declared⟩ := exists_ok_of_isOk collects
  obtain ⟨distinct, -, spells⟩ := Module.synthesizedKeys_distinct declared
  have refused : (match (Module.spelled.compile {} .library).1 with
      | .error (.duplicateOutput _ _ _) => true
      | _ => false) = true := by
    decide +kernel
  cases failed : (Module.spelled.compile {} .library).1 with
  | ok => simp [failed] at refused
  | error diagnostic =>
      rw [failed] at refused
      cases diagnostic with
      | duplicateOutput key first second =>
          obtain ⟨_, typing, -, -, spelled⟩ := spells .library {} key first second .library failed
          exact ⟨⟨symbols, declared⟩, distinct _ fun _ => List.nodup_singleton _, key, first,
            second, .library, rfl, typing, spelled⟩
      | _ => cases refused

end ClassForge
