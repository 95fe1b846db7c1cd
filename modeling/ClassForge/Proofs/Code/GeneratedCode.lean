import ClassForge.Proofs.Code.StorageAgreement

/-!
# Storage throughout the generated code

Code is generated for the members of a module and for what boundaries move out
of them.  `Module.Generates` follows the generator through all of it, together
with the scope in which the checker saw each expression.  At every place storage
agrees with the checker: variables are found with their types, what crosses a
boundary is in cells, and each variable is in a cell just when its scope says so.
-/

namespace ClassForge

variable {entries : List (Name × Binding)} {clauses : List (Binder × Core)}

/-! ## Code of a module -/

/-- The code of a member: the arguments that it sees, how they are used, and the
expressions that it is made from. -/
structure MemberCode where
  arguments : List Param
  uses : Usage
  roots : List Expr

namespace MemberCode

/-- A member whose code is one expression. -/
def ofBody (arguments : List Param) (body : Expr) : MemberCode where
  arguments := arguments
  uses := body.usage
  roots := [body]

/-- The names that the arguments bring into scope. -/
def bounds (code : MemberCode) : List Bound :=
  code.arguments.map fun param => ⟨param.name, param.type, code.uses⟩

end MemberCode

/-- At the start of a member, storage agrees with what its expressions use. -/
theorem agrees_arguments {arguments : List Param} {uses inner : Usage} (within : inner.Within uses)
    (stored : List.Forall₂ Bound.Stored
      (arguments.map fun param => ⟨param.name, param.type, uses⟩) entries) :
    Agrees (.ofParams arguments) inner (Scope.empty.bindAll entries) := by
  have scope : Scope.ofParams arguments = Scope.empty.declare
      (arguments.map fun param => ⟨param.name, param.type, uses⟩) := by
    simp [Scope.ofParams, Scope.declare, Function.comp_def]
  rw [scope]
  refine Agrees.declare (fun name free type bound => by cases bound) ?_ stored
  intro bound member captured
  obtain ⟨param, -, rfl⟩ := List.mem_map.mp member
  exact within.captured _ captured

/-- The code of the members of a class: methods, constructors, accessors. -/
def ClassDef.code (cls : ClassDef) : List MemberCode :=
  cls.methods.flatMap (fun method => method.body.toList.map
      (.ofBody (cls.arguments method.attrs.isStatic method.params))) ++
    cls.allCtors.map (fun ctor =>
      { arguments := cls.arguments false ctor.params, uses := ctor.uses,
        roots := ctor.baseArgs ++ [ctor.body] }) ++
    cls.properties.flatMap fun property =>
      property.getter.toList.map (.ofBody (cls.arguments property.isStatic [])) ++
        property.setter.toList.map
          (.ofBody (cls.arguments property.isStatic
            [TypeContext.setterValue property]))

theorem CtorDef.within_foldl_union (args : List Expr) {start : Usage}
    (sorted : start.Sorted) :
    (start.Within (args.foldl (fun uses arg => uses.union arg.usage) start)) ∧
      ∀ arg ∈ args,
        arg.usage.Within (args.foldl (fun uses arg => uses.union arg.usage) start) := by
  induction args generalizing start with
  | nil => exact ⟨.refl _, by simp⟩
  | cons arg args ih =>
      obtain ⟨whole, each⟩ := ih (sorted.union arg.usage)
      have argSorted := Expr.sorted_usage arg
      refine ⟨(Usage.within_union_left sorted argSorted).trans whole, ?_⟩
      intro other member
      rcases List.mem_cons.mp member with rfl | later
      · exact (Usage.within_union_right sorted argSorted).trans whole
      · exact each other later

/-- The uses of the arguments are those of all expressions of the member. -/
theorem ClassDef.usage_within_of_mem_code {cls : ClassDef} {code : MemberCode}
    (member : code ∈ cls.code) {root : Expr}
    (isRoot : root ∈ code.roots) : root.usage.Within code.uses := by
  have ofBody : ∀ {arguments : List Param} {body : Option Expr},
      code ∈ body.toList.map (MemberCode.ofBody arguments) →
        root.usage.Within code.uses := by
    intro arguments body present
    obtain ⟨expr, -, rfl⟩ := List.mem_map.mp present
    obtain rfl := List.mem_singleton.mp isRoot
    exact .refl _
  simp only [ClassDef.code, List.mem_append, List.mem_flatMap] at member
  rcases member with (⟨method, -, present⟩ | present) | ⟨property, -, present | present⟩
  · exact ofBody present
  · obtain ⟨ctor, -, rfl⟩ := List.mem_map.mp present
    have within := CtorDef.within_foldl_union ctor.baseArgs (Expr.sorted_usage ctor.body)
    rcases List.mem_append.mp isRoot with isArg | isBody
    · exact within.2 root isArg
    · obtain rfl := List.mem_singleton.mp isBody
      exact within.1
  · exact ofBody present
  · exact ofBody present

/-! ## Places in the generated code -/

namespace Module

/-- The checker starts at the expressions of the members. -/
def Starts (module : Module) (context : TypeContext) (code : MemberCode)
    (point : Checkpoint) : Prop :=
  (∃ cls ∈ module.classes, code ∈ cls.code) ∧ point.expr ∈ code.roots ∧
    point.types = .ofParams code.arguments ∧ point.Accepted context

/-- The checker comes to every expression inside those of the members. -/
def Visits (module : Module) (context : TypeContext) (point : Checkpoint) : Prop :=
  ∃ code start, module.Starts context code start ∧ start.Reaches point

end Module

/-- A place where code is generated: an expression that was checked, and the
storage of the names in scope. -/
structure CodeSite extends Checkpoint where
  env : Scope Binding

/-- Code is generated at a place with the storage `outer`, to which storage for
the names `bounds` was added.  A body starts with its arguments or with what it
captures; within a body the generator goes down as the checker does. -/
inductive Module.Generates (module : Module) (context : TypeContext)
    (lowering : LowerContext) : List Bound → Scope Binding → CodeSite → Prop where
  | member {code : MemberCode} {start : Checkpoint} {env : Scope Binding}
      {before after : Emitter}
      (starts : module.Starts context code start)
      (run : (lowering.bindParams (bindersOf code.uses code.arguments) 0 .empty).run
        before = .ok (env, after)) :
      Generates module context lowering code.bounds .empty ⟨start, env⟩
  | opened {point : Checkpoint} {position : Position} {bounds : List Bound}
      {child : Expr} {part : Core} {outer env : Scope Binding}
      (visits : module.Visits context point)
      (step : Descends position bounds point.expr point.core child part)
      (opens : point.core.Opens lowering position outer env) :
      Generates module context lowering bounds outer
        ⟨⟨point.types.declare bounds, child, part⟩, env⟩
  | inner {site : CodeSite} {added bounds : List Bound} {outer env : Scope Binding}
      {position : Position} {child : Expr} {part : Core}
      (generated : Generates module context lowering added outer site)
      (step : Descends position bounds site.expr site.core child part)
      (extended : site.core.Extends lowering position site.env env) :
      Generates module context lowering bounds site.env
        ⟨⟨site.types.declare bounds, child, part⟩, env⟩

theorem Core.Extends.inBody {lowering : LowerContext} {core : Core} {position : Position}
    {env inner : Scope Binding}
    (extended : core.Extends lowering position env inner) : position.InBody := by
  cases extended <;> trivial

namespace Module

variable {module : Module} {context : TypeContext} {lowering : LowerContext}

/-- The invariant along the generator: the expression is accepted, what was added
to storage is as its scope says, and storage agrees with what is used. -/
theorem Generates.invariant {bounds : List Bound} {outer : Scope Binding} {site : CodeSite}
    (generated : module.Generates context lowering bounds outer site) :
    site.Accepted context ∧ Allocates bounds outer site.env ∧
      Agrees site.types site.expr.usage site.env := by
  induction generated with
  | member starts run =>
      obtain ⟨⟨cls, -, isCode⟩, isRoot, scope, accepted⟩ := starts
      obtain ⟨entries, rfl, stored⟩ := (LowerContext.bindParams_shape _ _ _).of_run run
      have stored := stored_of_binders stored
      have within := ClassDef.usage_within_of_mem_code isCode isRoot
      refine ⟨accepted, .of_stored stored _, ?_⟩
      rw [scope]
      exact agrees_arguments within stored
  | opened visits step opens =>
      obtain ⟨code, start, starts, reaches⟩ := visits
      have accepted := reaches.accepted starts.2.2.2
      obtain ⟨cells, entries, rfl, rfl, laid⟩ := opens.laid
      obtain ⟨allocates, agrees⟩ := step.opened accepted laid
      exact ⟨step.checks accepted, allocates, agrees⟩
  | inner generated step extended ih =>
      obtain ⟨accepted, -, agrees⟩ := ih
      obtain ⟨entries, rfl, stored⟩ := step.stored accepted extended
      exact ⟨step.checks accepted, .of_stored stored _,
        step.agrees extended.inBody accepted agrees stored⟩

end Module

/-! ## What storage has to provide at a node -/

/-- A variable is stored with the type that the checker sees. -/
def FoundAs (types : Scope SourceTy) (env : Scope Binding) (name : Name) : Prop :=
  ∃ binding, env.get? name = some binding ∧ types.get? name = some binding.type

/-- The name that a loop brings into scope where its function is made. -/
def Core.functionBounds (uses : Usage) : Core → List Bound
  | loop _ function _ _ _ _ => [⟨function.name, function.type, uses⟩]
  | _ => []

/-- The storage in which the cells of captured variables are pushed.  The function
of a loop is stored by then. -/
inductive Core.CallSite (lowering : LowerContext) :
    Core → Scope Binding → Scope Binding → Prop where
  | boundary {core : Core} {env : Scope Binding}
      (notLoop : ∀ uses, core.functionBounds uses = []) :
      CallSite lowering core env env
  | loop {id : NodeId} {function : Binder} {vars : List (Binder × Core)}
      {ret : SourceTy} {captures : List Param} {body : Core} {env : Scope Binding}
      {binding : Binding} {before after : Emitter}
      (run : (lowering.bindFresh function.type function.captured).run before =
        .ok (binding, after)) :
      CallSite lowering (.loop id function vars ret captures body) env
        (env.bind function.name binding)

/-- What the generator relies on at a node. -/
structure CodeSite.Stored (lowering : LowerContext) (site : CodeSite) : Prop where
  /-- A variable that is read is stored with its type. -/
  read : ∀ name type, site.core = .var name type →
    FoundAs site.types site.env name ∧ site.types.get? name = some type
  /-- A variable that is assigned is stored with its type. -/
  assigned : ∀ name value, site.core = .set name value →
    FoundAs site.types site.env name
  /-- The variables of a `letrec` are stored when they are given their values. -/
  recursive : ∀ clauses body inner, site.core = .letRec clauses body →
    site.core.Extends lowering .body site.env inner →
    ∀ clause ∈ clauses,
      FoundAs (site.types.bindAll (clauses.map fun clause =>
        (clause.1.name, clause.1.type))) inner clause.1.name
  /-- The captured variables are the names that cross the boundary. -/
  captures : site.core.captures.map Param.name = site.expr.crossing.names
  /-- Where the boundary is called, its captured variables are in cells; the name of
  a loop is in a cell just when the loop captures it. -/
  shared : ∀ env, site.core.CallSite lowering site.env env →
    Allocates (site.core.functionBounds site.expr.crossing) site.env env ∧
      ∀ capture ∈ site.core.captures, capture.SharedIn env

theorem foundAs_declare {types : Scope SourceTy} {env : Scope Binding} {bounds : List Bound}
    (stored : List.Forall₂ Bound.Stored bounds entries) {name : Name}
    (present : name ∈ bounds.map Bound.name ∨ FoundAs types env name) :
    FoundAs (types.declare bounds) (env.bindAll entries) name := by
  induction stored generalizing types env with
  | nil => simpa using present
  | @cons bound entry _ _ head _ ih =>
      obtain ⟨key, binding⟩ := entry
      obtain rfl : key = bound.name := head.named
      rw [Scope.declare_cons, Scope.bindAll_cons, ← head.typed]
      refine ih ?_
      by_cases same : name = bound.name
      · exact Or.inr ⟨binding, by rw [Scope.get?_bind, if_pos same],
          by rw [Scope.get?_bind, if_pos same]⟩
      · rcases present with listed | ⟨found, inEnv, inTypes⟩
        · rcases List.mem_cons.mp listed with first | later
          · exact absurd first same
          · exact Or.inl later
        · exact Or.inr ⟨found, by rw [Scope.get?_bind, if_neg same, inEnv],
            by rw [Scope.get?_bind, if_neg same, inTypes]⟩

theorem Expr.isCaptured_crossing {expr : Expr} {name : Name}
    (crosses : name ∈ expr.crossing.names) : expr.crossing.isCaptured name = true := by
  cases expr <;> simp only [crossing] at crosses ⊢
  case lambda | loop | pin =>
    rw [Usage.moved, Usage.names_captureAll] at crosses
    rw [Usage.moved, Usage.isCaptured_captureAll]
    exact decide_eq_true crosses
  case tryCatch | tryFinally =>
    unfold Usage.guarded at crosses ⊢
    rw [Usage.names_captureAll] at crosses
    rw [Usage.isCaptured_captureAll]
    exact decide_eq_true crosses
  all_goals cases crosses

theorem Core.Marked.pairs {bounds : List Bound} (marked : Core.Marked bounds clauses) :
    (clauses.map fun clause => (clause.1.name, clause.1.type)) =
      bounds.map fun bound => (bound.name, bound.type) := by
  induction marked with
  | nil => rfl
  | cons same _ ih => rw [List.map_cons, List.map_cons, ih, same]; rfl

theorem Core.Marked.names {bounds : List Bound} (marked : Core.Marked bounds clauses) :
    (clauses.map fun clause => clause.1.name) = bounds.map Bound.name := by
  have first := congrArg (List.map Prod.fst) marked.pairs
  rw [List.map_map, List.map_map] at first
  exact first

section Boundaries

variable {context : TypeContext} {types : Scope SourceTy} {lowering : LowerContext}
variable {expr : Expr} {core : Core} {env inner : Scope Binding}
variable {entries : List (Name × Binding)}

theorem Expr.crossing_of_isOperation (operation : expr.isOperation = true) :
    expr.crossing = .empty := by
  cases expr <;> first | rfl | cases operation

/-- The captured variables are the crossing names with the types in the scope in
which the function or the call is made. -/
theorem Expr.Checks.captures (checked : expr.Checks context types core) :
    List.Forall₂ (Expr.Crosses (types.declare (core.functionBounds expr.crossing)))
      expr.crossing.names core.captures := by
  cases checked.elaborates with
  | operation operation _ _ acts =>
      rw [Expr.crossing_of_isOperation operation]
      cases acts <;> exact .nil
  | lambda _ crossing => exact crossing
  | loop _ named _ _ crossing =>
      subst named
      exact crossing
  | tryCatch _ _ crossing => exact crossing
  | tryFinally _ _ _ crossing => exact crossing
  | pin _ _ crossing => exact crossing
  | literal | var | set | seq | logic | when | cond | «while» | switch | letPar
  | letSeq | letRec | invoke => exact .nil

/-- What crosses a boundary is used by it, apart from the name of a loop. -/
theorem Expr.crossing_within
    (notLoop : ∀ id name vars ret body, expr ≠ .loop id name vars ret body) :
    expr.crossing.Within expr.usage := by
  have nothing : Usage.empty.Within expr.usage :=
    ⟨fun _ free => (List.not_mem_nil free).elim, fun _ captured => by cases captured⟩
  cases expr with
  | lambda id params body => exact .refl _
  | tryCatch id body catches => exact .refl _
  | tryFinally id body catches final => exact .refl _
  | pin id arrays body =>
      rw [Expr.usage, Expr.crossing, namedUsages_eq_map, List.map_map, List.map_map]
      exact Usage.within_union_right (Usage.sorted_unionAll _)
        ((sorted_usage body).moved _)
  | loop id name vars ret body => exact absurd rfl (notLoop id name vars ret body)
  | _ => exact nothing

/-- Where a function or a call is made, storage agrees with what crosses. -/
theorem agrees_crossing (checked : expr.Checks context types core)
    (agrees : Agrees types expr.usage env)
    (stored : List.Forall₂ Bound.Stored (core.functionBounds expr.crossing) entries) :
    Agrees (types.declare (core.functionBounds expr.crossing)) expr.crossing
      (env.bindAll entries) := by
  by_cases isLoop : ∃ id name vars ret body, expr = .loop id name vars ret body
  · obtain ⟨id, name, vars, ret, body, rfl⟩ := isLoop
    have uses : (Expr.loop id name vars ret body).usage =
        (Usage.unionAll ((Expr.typedUsages vars).map (·.2))).union
          ((Expr.loop id name vars ret body).crossing.without [name]) := by
      rw [Expr.usage, Expr.crossing, Expr.typedUsages_eq_map, List.map_map, List.map_map]
      rfl
    cases checked.elaborates with
    | operation operation => cases operation
    | loop _ named =>
        subst named
        refine Agrees.declare (agrees.within ?_) ?_ stored
        · rw [uses]
          exact Usage.within_union_right (Usage.sorted_unionAll _)
            (((Expr.sorted_usage body).moved _).without _)
        · intro bound member captured
          obtain rfl := List.mem_singleton.mp member
          exact captured
  · have noFunction : core.functionBounds expr.crossing = [] := by
      cases checked.elaborates with
      | loop => exact absurd ⟨_, _, _, _, _, rfl⟩ isLoop
      | operation _ _ _ acts => cases acts <;> rfl
      | _ => rfl
    rw [noFunction] at stored ⊢
    cases stored
    refine agrees.within (Expr.crossing_within ?_)
    rintro id name vars ret body rfl
    exact isLoop ⟨_, _, _, _, _, rfl⟩

/-- Where a function or a call is made, captured variables are in cells. -/
theorem sharedIn_captures (checked : expr.Checks context types core)
    (agrees : Agrees types expr.usage env)
    (stored : List.Forall₂ Bound.Stored (core.functionBounds expr.crossing) entries)
    (capture : Param) (member : capture ∈ core.captures) :
    capture.SharedIn (env.bindAll entries) := by
  have crosses := checked.captures
  obtain ⟨name, paired⟩ := exists_mem_zip crosses.length_eq member
  have crossing := List.forall₂_zip crosses paired
  have free := (List.of_mem_zip paired).1
  obtain ⟨binding, found, typed, boxed⟩ :=
    agrees_crossing checked agrees stored name free _ crossing.bound
  exact ⟨binding, crossing.named ▸ found, typed, boxed (Expr.isCaptured_crossing free)⟩

theorem Core.CallSite.stored (call : core.CallSite lowering env inner)
    (checked : expr.Checks context types core) :
    ∃ entries, inner = env.bindAll entries ∧
      List.Forall₂ Bound.Stored (core.functionBounds expr.crossing) entries := by
  cases call with
  | boundary notLoop =>
      rw [notLoop]
      exact ⟨[], rfl, .nil⟩
  | @loop id function vars ret captures body _ binding _ _ run =>
      have shape := (LowerContext.bindFresh_shape _ _).of_run run
      refine ⟨[(function.name, binding)], rfl, .cons ⟨rfl, shape.1, ?_⟩ .nil⟩
      rw [shape.2]
      cases checked.elaborates with
      | operation _ _ _ acts => cases acts
      | loop _ named => rw [named]; rfl

end Boundaries

/-- At every place in the generated code storage provides what the generator
relies on. -/
theorem Module.Generates.stored {module : Module} {context : TypeContext} {lowering : LowerContext}
    {bounds : List Bound} {outer : Scope Binding} {site : CodeSite}
    (generated : module.Generates context lowering bounds outer site) :
    site.Stored lowering := by
  obtain ⟨accepted, -, agrees⟩ := generated.invariant
  obtain ⟨⟨types, expr, core⟩, env⟩ := site
  have checked : expr.Checks context types core := accepted
  have foundAs : ∀ {name type}, name ∈ expr.usage.names →
      types.get? name = some type → FoundAs types env name := by
    intro name type free bound
    obtain ⟨binding, found, typed, -⟩ := agrees name free type bound
    exact ⟨binding, found, typed ▸ bound⟩
  constructor
  case read =>
    rintro name type ⟨⟩
    cases checked.elaborates with
    | operation operation _ _ acts => cases acts
    | var bound => exact ⟨foundAs (by simp [Expr.usage]) bound, bound⟩
  case assigned =>
    rintro name value ⟨⟩
    cases checked.elaborates with
    | operation operation _ _ acts => cases acts
    | set bound => exact foundAs (by simp [Expr.usage, Usage.mem_names_union]) bound
  case recursive =>
    rintro cores body inner ⟨⟩ extended clause member
    cases checked.elaborates with
    | operation operation _ _ acts => cases acts
    | letRec same clauses =>
        obtain ⟨entries, rfl, stored⟩ := Descends.stored .letRec checked extended
        have marked := Expr.marked_of_checksTyped clauses
        have names := marked.names
        rw [marked.pairs]
        refine foundAs_declare stored (Or.inl ?_)
        exact names ▸ List.mem_map_of_mem (f := fun core : Binder × Core => core.1.name) member
  case captures =>
    refine List.forall₂_eq_eq_eq ▸ ?_
    rw [List.forall₂_map_left_iff]
    exact checked.captures.flip.imp fun capture name crossing => crossing.named
  case shared =>
    intro inner call
    obtain ⟨entries, rfl, stored⟩ := call.stored checked
    exact ⟨.of_stored stored _, sharedIn_captures checked agrees stored⟩

end ClassForge
