import ClassForge.Proofs.Build.MethodModules
import ClassForge.Proofs.Typing.DeclaredSubtypes

/-!
# Types of stored values

Code stores values in the variables that an expression binds or assigns and in those that pass
values on.  What is stored fits the variable: its type is assignable to the type that the variable
is recorded with.  Where a `letrec` declares a name more than once, the values of all its clauses go
to the variable of the last one, so there the clauses have to declare the name alike.

`Core.Stores` and `Core.Extends` follow the generator: whenever it generates code for a node, it
stores as the one says and goes down as the other does.
-/

namespace ClassForge

variable {lowering : LowerContext}

/-- What is found for a name that was bound last is one of its bindings. -/
theorem Scope.mem_of_get?_bindAll {α : Type} {scope : Scope α} {bindings : List (Name × α)}
    {name : Name} {value : α} (found : (scope.bindAll bindings).get? name = some value)
    (isBound : name ∈ bindings.map Prod.fst) : (name, value) ∈ bindings := by
  rw [Scope.get?, Scope.bindAll, List.lookup_append] at found
  cases inside : bindings.reverse.lookup name with
  | none =>
      obtain ⟨entry, isEntry, rfl⟩ := List.mem_map.mp isBound
      have absent := List.lookup_eq_none_iff.mp inside entry (List.mem_reverse.mpr isEntry)
      simp at absent
  | some other =>
      rw [inside, Option.some_or, Option.some.injEq] at found
      obtain ⟨before, after, shape, -⟩ := List.lookup_eq_some_iff.mp inside
      exact List.mem_reverse.mp (shape ▸ found ▸ by simp)

namespace Core

/-- The code of a node stores a value of a type in a variable, when storage is `env`. -/
inductive Stores (lowering : LowerContext) (env : Scope Binding) :
    Core → SourceTy → Binding → Prop where
  | letPar {clauses : List (Binder × Core)} {body init : Core} {binder : Binder}
      {binding : Binding} {before after : Emitter} (isClause : (binder, init) ∈ clauses)
      (run : (lowering.bindTop binder.type binder.captured).run before = .ok (binding, after)) :
      Stores lowering env (.letPar clauses body) init.type binding
  | letSeq {clauses : List (Binder × Core)} {body init : Core} {binder : Binder}
      {binding : Binding} {before after : Emitter} (isClause : (binder, init) ∈ clauses)
      (run : (lowering.bindTop binder.type binder.captured).run before = .ok (binding, after)) :
      Stores lowering env (.letSeq clauses body) init.type binding
  /-- The variables of all clauses are there before the values, which look theirs up by name. -/
  | letRec {clauses : List (Binder × Core)} {body init : Core} {binder : Binder}
      {entries : List (Name × Binding)} {binding : Binding} {before after : Emitter}
      (run : (declareClauses lowering clauses).run before = .ok (entries, after))
      (isClause : (binder, init) ∈ clauses)
      (found : (env.bindAll entries).get? binder.name = some binding) :
      Stores lowering env (.letRec clauses body) init.type binding
  | set {name : Name} {value : Core} {binding : Binding} (found : env.get? name = some binding) :
      Stores lowering env (.set name value) value.type binding
  /-- The initial values of a loop wait in slots. -/
  | initial {id : NodeId} {function : Binder} {vars : List (Binder × Core)} {ret : SourceTy}
      {captures : List Param} {body init : Core} {binder : Binder} {slot : Nat}
      {before after : Emitter} (isVariable : (binder, init) ∈ vars)
      (run : (lowering.storeTop binder.type).run before = .ok (slot, after)) :
      Stores lowering env (.loop id function vars ret captures body) init.type
        ⟨binder.type, .localSlot slot, false⟩
  | function {id : NodeId} {function : Binder} {vars : List (Binder × Core)} {ret : SourceTy}
      {captures : List Param} {body : Core} {binding : Binding} {before after : Emitter}
      (run : (lowering.bindFresh function.type function.captured).run before =
        .ok (binding, after)) :
      Stores lowering env (.loop id function vars ret captures body)
        (Closure.ofLoop lowering.host id (vars.map (·.1)) ret captures body).delegateType binding
  /-- A captured parameter of a function is moved to a cell. -/
  | parameter {core : Core} {closure : Closure} {param : Binder} {binding : Binding}
      {before after : Emitter} (isClosure : core.closure? lowering.host = some closure)
      (isParam : param ∈ closure.params)
      (run : (lowering.newCell param.type true).run before = .ok (binding, after)) :
      Stores lowering env core param.type binding
  | exception {core body : Core} {handler : CatchBinder} {binder : Binder} {binding : Binding}
      {before after : Emitter} (isHandler : (handler, body) ∈ core.handlers)
      (isBinder : handler.binder = some binder)
      (run : (lowering.bindTop binder.type binder.captured).run before = .ok (binding, after)) :
      Stores lowering env core handler.type binding
  | pointer {id : NodeId} {captures : List Param} {arrays : List (Binder × Core)}
      {body array : Core} {binder : Binder} {binding : Binding} {before after : Emitter}
      (isArray : (binder, array) ∈ arrays)
      (run : (lowering.bindTop .intPtr binder.captured).run before = .ok (binding, after)) :
      Stores lowering env (.pin id captures arrays body) .intPtr binding

/-- No name is declared with two types by one group of recursive clauses. -/
def DeclaresAlike : Core → Prop
  | letRec clauses _ => ∀ first ∈ clauses, ∀ second ∈ clauses,
      first.1.name = second.1.name → first.1.type = second.1.type
  | _ => True

end Core

section Clauses

variable {context : TypeContext} {types inner : Scope SourceTy} {uses : Usage} {core : Binder × Core}
variable {cores : List (Binder × Core)}
variable {clauses : List (Name × Expr)}

/-- A variable without a declared type has that of its initial value. -/
theorem Expr.type_of_checksNamed
    (checked : List.Forall₂ (Expr.ChecksNamed context types uses) clauses cores)
    (isClause : core ∈ cores) : core.1.type = core.2.type := by
  obtain ⟨clause, -, named⟩ := exists_related_left checked isClause
  rw [named.binder, Binder.of_type]

theorem Expr.type_of_checksInTurn
    (checked : Expr.ChecksInTurn context uses types clauses cores inner) (isClause : core ∈ cores)
    : core.1.type = core.2.type := by
  induction checked with
  | nil => cases isClause
  | cons first rest ih =>
      rcases List.mem_cons.mp isClause with rfl | later
      · rfl
      · exact ih later

/-- The initial value of a variable with a declared type is assignable to it. -/
theorem Expr.assignable_of_checksTyped {clauses : List (Param × Expr)}
    (checked : List.Forall₂ (Expr.ChecksTyped context types uses) clauses cores)
    (isClause : core ∈ cores) : context.isAssignable core.2.type core.1.type = true := by
  obtain ⟨clause, -, typed⟩ := exists_related_left checked isClause
  rw [typed.binder, Binder.of_type]
  exact typed.assignable

/-- The exception that a handler binds is of the type that the handler catches. -/
theorem Expr.type_of_checksHandler {type : SourceTy} {catches : List (Param × Expr)}
    {handlers : List (CatchBinder × Core)} {handler : CatchBinder × Core} {binder : Binder}
    (checked : List.Forall₂ (Expr.ChecksHandler context types type) catches handlers)
    (isHandler : handler ∈ handlers) (isBinder : handler.1.binder = some binder) :
    binder.type = handler.1.type := by
  obtain ⟨clause, -, caught⟩ := exists_related_left checked isHandler
  rw [caught.binder] at isBinder ⊢
  obtain ⟨_, -, rfl⟩ := Option.map_eq_some_iff.mp isBinder
  rfl

/-- The variable that a recursive clause stores in was made for a clause of its name. -/
theorem Core.type_of_declareClauses {env : Scope Binding} {entries : List (Name × Binding)}
    {binding : Binding} {before after : Emitter}
    (run : (Core.declareClauses lowering cores).run before = .ok (entries, after))
    (isClause : core ∈ cores) (found : (env.bindAll entries).get? core.1.name = some binding) :
    ∃ other ∈ cores, other.1.name = core.1.name ∧ binding.type = other.1.type := by
  have stored := (Core.declareClauses_shape _).of_run run
  have isBound : core.1.name ∈ entries.map Prod.fst := by
    obtain ⟨entry, isEntry, named⟩ := exists_related_right stored isClause
    exact named.named ▸ List.mem_map_of_mem isEntry
  obtain ⟨other, isOther, holds⟩ :=
    exists_related_left stored (Scope.mem_of_get?_bindAll found isBound)
  exact ⟨other, isOther, holds.named.symm, holds.typed⟩

end Clauses

/-- Whatever code stores fits the variable that it is stored in, as long as recursive clauses
declare a name alike. -/
theorem Module.stores_fit {module : Module} {context : TypeContext} {lowering : LowerContext}
    {bounds : List Bound} {outer : Scope Binding} {site : CodeSite} {type : SourceTy}
    {binding : Binding} (generated : module.Generates context lowering bounds outer site)
    (alike : site.core.DeclaresAlike) (stores : site.core.Stores lowering site.env type binding) :
    context.isAssignable type binding.type = true := by
  obtain ⟨accepted, -, -⟩ := generated.invariant
  have checked : site.expr.Elaborates context site.types site.core := accepted.elaborates
  have storage := generated.stored
  obtain ⟨⟨types, expr, core⟩, env⟩ := site
  have refl := @TypeContext.isAssignable_refl context
  cases stores with
  | letPar isClause run =>
      rw [((LowerContext.bindTop_shape _ _).of_run run).1]
      cases checked with
      | operation _ _ _ acts => cases acts
      | letPar inits => exact Expr.type_of_checksNamed inits isClause ▸ refl _
  | letSeq isClause run =>
      rw [((LowerContext.bindTop_shape _ _).of_run run).1]
      cases checked with
      | operation _ _ _ acts => cases acts
      | letSeq inits => exact Expr.type_of_checksInTurn inits isClause ▸ refl _
  | letRec run isClause found =>
      obtain ⟨other, isOther, sameName, isType⟩ := Core.type_of_declareClauses run isClause found
      rw [isType, alike other isOther _ isClause sameName]
      cases checked with
      | operation _ _ _ acts => cases acts
      | letRec _ inits => exact Expr.assignable_of_checksTyped inits isClause
  | set found =>
      obtain ⟨stored, isStored, bound⟩ := storage.assigned _ _ rfl
      obtain rfl := Option.some.inj (isStored.symm.trans found)
      cases checked with
      | operation _ _ _ acts => cases acts
      | set isBound _ assignable =>
          rwa [Option.some.inj (isBound.symm.trans bound)] at assignable
  | initial isVariable run =>
      cases checked with
      | operation _ _ _ acts => cases acts
      | loop inits => exact Expr.assignable_of_checksTyped inits isVariable
  | function run =>
      rw [((LowerContext.bindFresh_shape _ _).of_run run).1]
      cases checked with
      | operation _ _ _ acts => cases acts
      | loop _ named =>
          rw [named]
          simp [Closure.ofLoop, Closure.delegateType, Closure.paramTypes, Function.comp_def, refl]
  | parameter _ _ run => exact ((LowerContext.newCell_shape _ _).of_run run).1 ▸ refl _
  | exception isHandler isBinder run =>
      rw [((LowerContext.bindTop_shape _ _).of_run run).1]
      have same : ∀ {type : SourceTy} {catches : List (Param × Expr)}, List.Forall₂
          (Expr.ChecksHandler context types type) catches core.handlers → _ := fun caught =>
        Expr.type_of_checksHandler caught isHandler isBinder
      cases checked with
      | operation _ _ _ acts => cases acts <;> cases isHandler
      | tryCatch _ caught => exact same caught ▸ refl _
      | tryFinally _ caught => exact same caught ▸ refl _
      | _ => cases isHandler
  | pointer isArray run => exact ((LowerContext.bindTop_shape _ _).of_run run).1 ▸ refl _

/-- Recursive clauses that declare a variable twice. -/
def Expr.twice (first : Literal) : Expr :=
  .letRec [(⟨"x", first.type⟩, .literal first), (⟨"x", .int32⟩, .literal (.int32 1))] (.var "x")

/-- The same clauses, checked. -/
def Core.twice (first : Literal) : Core :=
  .letRec [(⟨"x", first.type, false⟩, .literal first),
    (⟨"x", .int32, false⟩, .literal (.int32 1))] (.var "x" .int32)

/-- A class whose method binds one name twice. -/
def Module.twice (first : Literal) : Module :=
  .ofMethod "P" .publicClass ⟨"go", .publicStatic, [], .int32, some (.twice first)⟩

theorem Module.twice_generates (first : Literal) {context : TypeContext}
    (checked : (Expr.twice first).Checks context .empty (.twice first)) :
    (Module.twice first).Generates context lowering [] .empty
      ⟨⟨.empty, .twice first, .twice first⟩, .empty⟩ := by
  refine @Module.Generates.member _ _ _ (.ofBody [] (.twice first)) _ _ {} _ ?_ rfl
  exact ⟨⟨_, List.mem_singleton_self _, List.mem_cons_self⟩, List.mem_singleton_self _, rfl, checked⟩

/-- The first of two numbers is stored in a variable that a number fits. -/
theorem Module.stores_fit_number : ∃ symbols lowering site,
    Symbols.ofModule (.twice (.int32 5)) = .ok symbols ∧
    (Module.twice (.int32 5)).Generates ⟨symbols, .library⟩ lowering [] .empty site ∧
    site.core.DeclaresAlike ∧
    site.core.Stores lowering site.env .int32 ⟨.int32, .localSlot 1, false⟩ ∧
    TypeContext.isAssignable ⟨symbols, .library⟩ .int32 .int32 = true := by
  have alike : (Core.twice (.int32 5)).DeclaresAlike := by
    simp [Core.twice, Core.DeclaresAlike, Literal.type, Ty.int32]
  have stores : (Core.twice (.int32 5)).Stores ⟨.library, .empty, "P", true⟩ .empty .int32
      ⟨.int32, .localSlot 1, false⟩ :=
    @Core.Stores.letRec _ _ _ _ (.literal (.int32 5)) _ _ _ {} _ rfl List.mem_cons_self rfl
  refine ⟨_, _, _, rfl, Module.twice_generates _ rfl, alike, stores, ?_⟩
  exact Module.stores_fit (Module.twice_generates (.int32 5) rfl) alike stores

/-- A text and a number of one name: the text is stored in the variable of the number. -/
theorem Module.text_misfits_number : ∃ symbols lowering site,
    Symbols.ofModule (.twice (.string "s")) = .ok symbols ∧
    (Module.twice (.string "s")).Generates ⟨symbols, .library⟩ lowering [] .empty site ∧
    site.core.Stores lowering site.env .string ⟨.int32, .localSlot 1, false⟩ ∧
    TypeContext.isAssignable ⟨symbols, .library⟩ .string .int32 = false := by
  have stores : (Core.twice (.string "s")).Stores ⟨.library, .empty, "P", true⟩ .empty .string
      ⟨.int32, .localSlot 1, false⟩ :=
    @Core.Stores.letRec _ _ _ _ (.literal (.string "s")) _ _ _ {} _ rfl List.mem_cons_self rfl
  exact ⟨_, _, _, rfl, Module.twice_generates _ rfl, stores, by decide +kernel⟩

/-! ## What generating code goes through -/

/-- Whenever an action runs to its end, it has run one of some others. -/
def Lower.Passes {ι α β : Type} (inner : ι → Lower α) (outer : Lower β) : Prop :=
  ∀ before result after, outer.Writes before result after →
    ∃ index start value stop, (inner index).Writes start value stop

namespace Lower.Passes

variable {ι κ α β γ : Type} {inner : ι → Lower α} {first : Lower β} {next : β → Lower γ}

theorem self {index : ι} : Passes inner (inner index) :=
  fun before result after written => ⟨index, before, result, after, written⟩

theorem left (passes : Passes inner first) : Passes inner (first >>= next) := by
  intro before result after written
  obtain ⟨value, middle, early, -⟩ := writes_bind.mp written
  exact passes _ _ _ early

/-- What comes after an action may count on its result. -/
theorem rightOf {post : β → Prop} (ensures : Ensures (fun _ => True) first post)
    (passes : ∀ value, post value → Passes inner (next value)) : Passes inner (first >>= next) := by
  intro before result after written
  obtain ⟨value, middle, early, late⟩ := writes_bind.mp written
  exact passes value (ensures.of_run early) _ _ _ late

theorem right (passes : ∀ value, Passes inner (next value)) : Passes inner (first >>= next) :=
  rightOf (.any first) fun value _ => passes value

/-- What is run for the first item of a list, and for those of the rest, is run for all. -/
theorem of_mem {item : κ} {items : List κ} (inner : κ → ι → Lower α) (run : List κ → Lower β)
    (first : ∀ item items, Passes (inner item) (run (item :: items)))
    (rest : ∀ other next items, Passes (inner item) (run (next :: items)) →
      Passes (inner item) (run (other :: next :: items)))
    (isItem : item ∈ items) : Passes (inner item) (run items) := by
  induction items with
  | nil => cases isItem
  | cons other items ih =>
      rcases List.mem_cons.mp isItem with rfl | later
      · exact first _ _
      · cases items with
        | nil => cases later
        | cons next items => exact rest _ _ _ (ih later)

theorem store {context : LowerContext} {binding : Binding} {value : Lower Unit}
    (passes : Passes inner value) : Passes inner (context.store binding value) := by
  unfold LowerContext.store
  split
  · exact right fun _ => passes.left
  · cases binding.place with
    | argument slot | localSlot slot => exact passes.left
    | receiverField field => exact right fun _ => passes.left

end Lower.Passes

namespace Core

open Lower Lower.Passes

variable {context : LowerContext} {core part : Core} {env inner : Scope Binding} {tail : Bool}
variable {before after : Emitter} {arms : List (List UInt32 × Core)} {type : SourceTy}

/-- A `switch` has a label.  Without one no code is generated for its arms. -/
def Labelled : Core → Prop
  | switch _ arms _ => ∃ arm ∈ arms, ∃ label, label ∈ arm.1
  | _ => True

theorem passes_lowerAll {items : List Core} (isItem : part ∈ items) :
    Passes (part.lower context env) (lowerAll context items env) :=
  of_mem (lower context · env) (lowerAll context · env) (fun _ _ => self.left)
    (fun _ _ _ passes => right fun _ => passes) isItem

theorem passes_lowerArms {labels : List Label} {stop : Label} (length : labels.length = arms.length)
    (isArm : part ∈ arms.map (·.2)) :
    Passes (part.lower context env) (lowerArms context arms labels stop env tail) := by
  induction arms generalizing labels with
  | nil => cases isArm
  | cons arm arms ih =>
      obtain ⟨label, labels, rfl⟩ := List.exists_cons_of_length_eq_add_one length
      rcases List.mem_cons.mp isArm with rfl | later
      · exact right fun _ => self.left
      · exact right fun _ => right fun _ => right fun _ => ih (Nat.succ.inj length) later

/-- Generating code for a node generates that of every part in place, in the same storage. -/
theorem passes_inPlace (labelled : core.Labelled) (isPart : part ∈ core.inPlace) :
    Passes (part.lower context env) (core.lower context env tail) := by
  cases core with
  | literal | var | letSeq | letRec | lambda | tryCatch | tryFinally => cases isPart
  | set name value =>
      obtain rfl := List.mem_singleton.mp isPart
      exact right fun _ => self.store
  | seq items =>
      refine of_mem (lower context · env) (lowerSeq context · env tail) (fun item items => ?_)
        (fun _ _ _ passes => right fun _ => right fun _ => passes) isPart
      cases items with
      | nil => exact self
      | cons next items => exact self.left
  | logic connective items =>
      rw [lower]
      split
      · rename_i none
        rw [inPlace, List.isEmpty_iff.mp none] at isPart
        cases isPart
      · refine right fun stop => left ?_
        refine of_mem (lower context · env) (lowerLogic context · connective stop env)
          (fun item items => ?_) (fun _ _ _ passes => right fun _ => right fun _ => passes) isPart
        cases items with
        | nil => exact self
        | cons next items => exact self.left
  | when | «while» | cond =>
      simp only [inPlace, List.mem_cons, List.not_mem_nil, or_false] at isPart
      rcases isPart with rfl | rfl | rfl
      all_goals
        rw [lower]
        repeat first | exact self.left | refine right fun _ => ?_
  | switch selector arms default =>
      rw [inPlace, List.mem_append, List.mem_cons, List.mem_singleton] at isPart
      rw [lower]
      rcases isPart with (rfl | isArm) | rfl
      · exact self.left
      all_goals
        refine right fun _ => ?_
        split
      · rename_i none
        obtain ⟨arm, isLabelled, label, isLabel⟩ := labelled
        have member : label.toNat ∈ arms.flatMap fun arm => arm.1.map UInt32.toNat :=
          List.mem_flatMap.mpr ⟨arm, isLabelled, List.mem_map_of_mem isLabel⟩
        rw [List.max?_eq_none_iff.mp none] at member
        cases member
      · refine right fun _ => right fun _ => rightOf (Ensures.mapM fun _ _ => .any _)
          fun targets all => right fun _ => right fun _ => left (passes_lowerArms ?_ isArm)
        rw [List.length_map, all.length_eq]
      · exact right fun _ => self
      · repeat first | exact self.left | refine right fun _ => ?_
  | letPar clauses body =>
      obtain ⟨clause, isClause, rfl⟩ := List.mem_map.mp isPart
      exact left (of_mem (lower context ·.2 env) (lowerNamed context · env) (fun _ _ => self.left)
        (fun _ _ _ passes => right fun _ => right fun _ => passes.left) isClause)
  | loop id function vars ret captures body =>
      obtain ⟨clause, isClause, rfl⟩ := List.mem_map.mp isPart
      exact left (of_mem (lower context ·.2 env) (lowerTemps context · env) (fun _ _ => self.left)
        (fun _ _ _ passes => right fun _ => right fun _ => passes.left) isClause)
  | invoke type function args =>
      rcases List.mem_cons.mp isPart with rfl | isArg
      · exact self.left
      · exact right fun _ => (passes_lowerAll isArg).left
  | apply type action operands => exact (passes_lowerAll isPart).left
  | member type use operands => cases use <;> exact right fun _ => (passes_lowerAll isPart).left
  | pin id captures arrays body =>
      rw [lower, lowerArrays_eq_lowerAll]
      exact right fun _ => (passes_lowerAll isPart).left

/-- Generating code for a clause of a `let*` follows that for the clauses before it. -/
theorem writes_lowerClauses {clauses : List (Binder × Core)} {index : Nat} {clause : Binder × Core}
    (found : clauses[index]? = some clause)
    (written : (lowerClauses context clauses env).Writes before inner after) :
    ∃ scope start middle, (lowerClauses context (clauses.take index) env).Writes before scope start ∧
      (clause.2.lower context scope false).Writes start () middle ∧
      ∃ binding stop, (context.bindTop clause.1.type clause.1.captured).Writes middle binding stop := by
  induction clauses generalizing index env before with
  | nil => cases found
  | cons first clauses ih =>
      obtain ⟨⟨⟩, middle, lowered, written⟩ := writes_bind.mp written
      obtain ⟨binding, stop, binds, written⟩ := writes_bind.mp written
      cases index with
      | zero =>
          cases found
          exact ⟨env, before, middle, rfl, lowered, binding, stop, binds⟩
      | succ index =>
          obtain ⟨scope, start, done, earlier, rest⟩ := ih found written
          exact ⟨scope, start, done, writes_bind.mpr ⟨(), middle, lowered,
            writes_bind.mpr ⟨binding, stop, binds, earlier⟩⟩, rest⟩

/-- The types of the values that the code of a node stores.  Parameters, exceptions and pointers are
stored by what moves into a member of its own. -/
def stored (host : Name) : Core → List SourceTy
  | letPar clauses _ | letSeq clauses _ | letRec clauses _ => clauses.map (·.2.type)
  | set _ value => [value.type]
  | loop id _ vars ret captures body =>
      (Closure.ofLoop host id (vars.map (·.1)) ret captures body).delegateType ::
        vars.map (·.2.type)
  | _ => []

/-- Generating code for a node stores values as `Core.Stores` says. -/
theorem stores_of_lower (written : (core.lower context env tail).Writes before () after)
    (isStored : type ∈ core.stored context.host) : ∃ binding, core.Stores context env type binding := by
  cases core with
  | letPar clauses body =>
      obtain ⟨clause, isClause, rfl⟩ := List.mem_map.mp isStored
      obtain ⟨⟨⟩, _, binding, _, run⟩ := left (of_mem (fun clause (_ : Unit) =>
        context.bindTop clause.1.type clause.1.captured) (lowerNamed context · env)
        (fun _ _ => right fun _ => left (@self _ _ _ ()))
        (fun _ _ _ passes => right fun _ => right fun _ => passes.left) isClause) _ _ _ written
      exact ⟨binding, .letPar isClause run⟩
  | letSeq clauses body =>
      obtain ⟨clause, isClause, rfl⟩ := List.mem_map.mp isStored
      obtain ⟨index, found⟩ := List.mem_iff_getElem?.mp isClause
      obtain ⟨_, _, early, -⟩ := writes_bind.mp written
      obtain ⟨_, _, _, -, -, binding, _, run⟩ := writes_lowerClauses found early
      exact ⟨binding, .letSeq isClause run⟩
  | letRec clauses body =>
      obtain ⟨clause, isClause, rfl⟩ := List.mem_map.mp isStored
      obtain ⟨entries, _, declared, written⟩ := writes_bind.mp written
      obtain ⟨⟨⟩, _, binding, _, looked⟩ := left (of_mem (fun clause (_ : Unit) =>
        (liftM ((env.bindAll entries).lookup clause.1.name) : Lower Binding))
        (lowerStores context · (env.bindAll entries)) (fun _ _ => left (@self _ _ _ ()))
        (fun _ _ _ passes => right fun _ => right fun _ => passes) isClause) _ _ _ written
      exact ⟨binding, .letRec declared isClause (Scope.lookup_eq_ok.mp (writes_lift.mp looked).1)⟩
  | set name value =>
      obtain rfl := List.mem_singleton.mp isStored
      obtain ⟨binding, found, -⟩ := writes_lift_bind.mp written
      exact ⟨binding, .set (Scope.lookup_eq_ok.mp found)⟩
  | loop id function vars ret captures body =>
      rcases List.mem_cons.mp isStored with rfl | isInitial
      · obtain ⟨_, _, -, written⟩ := writes_bind.mp written
        obtain ⟨binding, _, run, -⟩ := writes_bind.mp written
        exact ⟨binding, .function run⟩
      · obtain ⟨clause, isClause, rfl⟩ := List.mem_map.mp isInitial
        obtain ⟨⟨⟩, _, slot, _, run⟩ := left (of_mem (fun clause (_ : Unit) =>
          context.storeTop clause.1.type) (lowerTemps context · env)
          (fun _ _ => right fun _ => left (@self _ _ _ ()))
          (fun _ _ _ passes => right fun _ => right fun _ => passes.left) isClause) _ _ _ written
        exact ⟨_, .initial isClause run⟩
  | _ => cases isStored

end Core

/-- Generating code for a node generates that of every part which stays in the body, in a storage
that `Core.Extends` gives. -/
theorem Descends.lowered {context : LowerContext} {position : Position} {bounds : List Bound}
    {expr child : Expr} {core part : Core} {env : Scope Binding} {tail : Bool} {before after : Emitter}
    (step : Descends position bounds expr core child part) (inBody : position.InBody)
    (labelled : core.Labelled) (written : (core.lower context env tail).Writes before () after) :
    ∃ inner tail start stop, core.Extends context position env inner ∧
      (part.lower context inner tail).Writes start () stop := by
  cases step with
  | own member =>
      obtain ⟨tail, start, _, stop, lowered⟩ :=
        Core.passes_inPlace labelled (List.of_mem_zip member).2 _ _ _ written
      exact ⟨env, tail, start, stop, .own, lowered⟩
  | letPar =>
      obtain ⟨_, _, early, late⟩ := Lower.writes_bind.mp written
      exact ⟨_, _, _, _, .letPar early, late⟩
  | letSeqClause _ found =>
      obtain ⟨_, _, early, -⟩ := Lower.writes_bind.mp written
      obtain ⟨_, _, _, earlier, lowered, -⟩ := Core.writes_lowerClauses found early
      exact ⟨_, _, _, _, .letSeqClause earlier, lowered⟩
  | letSeq =>
      obtain ⟨_, _, early, late⟩ := Lower.writes_bind.mp written
      exact ⟨_, _, _, _, .letSeq early, late⟩
  | letRecClause _ found =>
      obtain ⟨entries, _, declared, late⟩ := Lower.writes_bind.mp written
      obtain ⟨tail, _, _, _, lowered⟩ := (Lower.Passes.of_mem (Core.lower context ·.2 _)
        (Core.lowerStores context · _) (fun _ _ => .right fun _ => .left (.store .self))
        (fun _ _ _ passes => .right fun _ => .right fun _ => passes)
        (List.mem_of_getElem? found)).left _ _ _ late
      exact ⟨_, tail, _, _, .letRecClause declared, lowered⟩
  | letRec =>
      obtain ⟨_, _, declared, late⟩ := Lower.writes_bind.mp written
      obtain ⟨_, _, -, late⟩ := Lower.writes_bind.mp late
      exact ⟨_, _, _, _, .letRec declared, late⟩
  | _ => cases inBody

end ClassForge
