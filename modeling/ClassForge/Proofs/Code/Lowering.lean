import ClassForge.Proofs.Code.GeneratedCode

/-!
# Generating code of accepted expressions

Once the declared items that the nodes of a checked expression need are supplied,
generating its code fails only where the target refuses.  No variable is missing,
no cell is asked of a variable that has none, and no node turns out to be of the
wrong type.
-/

namespace ClassForge

variable {bounds : List Bound} {tail : Bool}

/-! ## What the code of a node needs -/

/-- The owner of a member, and the types that tell it from others of its name. -/
def MemberUse.signature : MemberUse → List SourceTy
  | loadField field | storeField field => [field.owner]
  | call callee | write callee | new callee => callee.owner :: callee.params

/-- Types that a member use needs handles for, to find a platform member. -/
def MemberUse.needs (use : MemberUse) : List SourceTy :=
  if use.key?.isSome then [] else use.signature

theorem MemberUse.mem_needs {use : MemberUse} {type : SourceTy} :
    type ∈ use.needs ↔ use.key? = none ∧ type ∈ use.signature := by
  unfold needs
  cases use.key? <;> simp

/-- Types that a node needs handles for, apart from those of variables in scope. -/
def Core.needs : Core → List SourceTy
  | letPar clauses _ | letSeq clauses _ | letRec clauses _ =>
      clauses.map fun clause => clause.1.type
  | loop _ function vars ret _ _ =>
      function.type :: .delegate ((vars.map (·.1)).map Binder.type) ret ::
        vars.map fun var => var.1.type
  | lambda _ params _ body => [.delegate (params.map Binder.type) body.type]
  | invoke _ function _ => [function.type]
  | apply _ action _ => action.needs
  | member _ use _ => use.needs
  | _ => []

/-- The items that the code of a node needs are supplied. -/
structure Core.Supplied (resolution : Resolution) (missing : Key → Prop)
    (host : Name) (core : Core) : Prop where
  types : ∀ type ∈ core.needs, resolution.SuppliesType missing type
  member : ∀ key ∈ core.memberKey?, resolution.Supplies missing key
  lifted : ∀ key ∈ core.liftedKeys host, resolution.Supplies missing key

/-- The types of stored variables are supplied. -/
def Scope.Supplied (env : Scope Binding) (resolution : Resolution)
    (missing : Key → Prop) : Prop :=
  ∀ name binding, env.get? name = some binding →
    resolution.SuppliesType missing binding.type

section

variable {resolution : Resolution} {missing : Key → Prop} {env : Scope Binding}
variable {entries : List (Name × Binding)}

theorem Scope.supplied_empty : (Scope.empty : Scope Binding).Supplied resolution missing :=
  fun _ _ found => by cases found

theorem Scope.Supplied.bind (supplied : env.Supplied resolution missing) (name : Name)
    {binding : Binding}
    (type : resolution.SuppliesType missing binding.type) :
    (env.bind name binding).Supplied resolution missing := by
  intro other found stored
  rw [Scope.get?_bind] at stored
  split at stored
  · cases stored
    exact type
  · exact supplied other found stored

theorem Scope.Supplied.bindAll (supplied : env.Supplied resolution missing) {α : Type}
    {relation : α → Name × Binding → Prop} {sources : List α}
    (stored : List.Forall₂ relation sources entries)
    (types : ∀ source ∈ sources, ∀ entry, relation source entry →
      resolution.SuppliesType missing entry.2.type) :
    (env.bindAll entries).Supplied resolution missing := by
  induction stored generalizing env with
  | nil => exact supplied
  | @cons source entry _ _ head _ ih =>
      obtain ⟨name, binding⟩ := entry
      rw [Scope.bindAll_cons]
      refine ih (supplied.bind name (types source List.mem_cons_self _ head)) ?_
      exact (List.forall_mem_cons.mp types).2

theorem Scope.Supplied.declare (supplied : env.Supplied resolution missing)
    (stored : List.Forall₂ Bound.Stored bounds entries)
    (types : ∀ bound ∈ bounds, resolution.SuppliesType missing bound.type) :
    (env.bindAll entries).Supplied resolution missing :=
  supplied.bindAll stored fun bound member _ holds => by
    rw [holds.typed]
    exact types bound member

end

/-! ## Lists of parts -/

namespace Core

open Lower

variable {context : LowerContext} {permits : Diagnostic → Prop}
variable {missing : Key → Prop} {crowded : Prop} {env : Scope Binding}
variable {clauses : List (Binder × Core)}
variable {items : List Core}

theorem lowerAll_ensures
    (each : ∀ item ∈ items,
      Ensures permits (item.lower context env false) fun _ => True) :
    Ensures permits (lowerAll context items env) fun _ => True := by
  induction items with
  | nil => exact .pure trivial
  | cons item items ih =>
      refine (each item List.mem_cons_self).andThen fun _ => ?_
      exact ih (List.forall_mem_cons.mp each).2

theorem lowerSeq_ensures
    (each : ∀ item ∈ items, ∀ last, Ensures permits (item.lower context env last) fun _ => True) :
    Ensures permits (lowerSeq context items env tail) fun _ => True := by
  induction items with
  | nil => exact .pure trivial
  | cons item items ih =>
      have rest := ih (List.forall_mem_cons.mp each).2
      cases items with
      | nil => exact each item List.mem_cons_self tail
      | cons next items =>
          refine (each item List.mem_cons_self false).andThen fun _ => ?_
          exact (Ensures.popValue _).andThen fun _ => rest

theorem lowerLogic_ensures {connective : Connective} {stop : Label}
    (each : ∀ item ∈ items,
      Ensures permits (item.lower context env false) fun _ => True) :
    Ensures permits (lowerLogic context items connective stop env) fun _ => True := by
  induction items with
  | nil => exact .pure trivial
  | cons item items ih =>
      have rest := ih (List.forall_mem_cons.mp each).2
      cases items with
      | nil => exact each item List.mem_cons_self
      | cons next items =>
          refine (each item List.mem_cons_self).andThen fun _ => ?_
          exact (Ensures.emitAll _).andThen fun _ => rest

theorem lowerArms_ensures {arms : List (List UInt32 × Core)} {labels : List Label}
    {stop : Label}
    (each : ∀ arm ∈ arms.map (·.2),
      Ensures (Diagnostic.Excused missing crowded) (arm.lower context env tail)
        fun _ => True) :
    Ensures (Diagnostic.Excused missing crowded)
      (lowerArms context arms labels stop env tail) fun _ => True := by
  induction arms generalizing labels with
  | nil => exact .pure trivial
  | cons arm arms ih =>
      obtain ⟨values, arm⟩ := arm
      cases labels with
      | nil => exact .pure trivial
      | cons label labels =>
          refine (mark_ensures _).andThen fun _ => ?_
          refine (each arm List.mem_cons_self).andThen fun _ => ?_
          refine (Ensures.emit _).andThen fun _ => ih ?_
          exact (List.forall_mem_cons.mp each).2

theorem lowerNamed_ensures
    (each : ∀ init ∈ clauses.map (·.2),
      Ensures (Diagnostic.Excused missing crowded) (init.lower context env false)
        fun _ => True)
    (types : ∀ clause ∈ clauses,
      context.resolution.SuppliesType missing clause.1.type) :
    Ensures (Diagnostic.Excused missing crowded) (lowerNamed context clauses env)
      (List.Forall₂ (fun clause entry => clause.1.Stored entry) clauses) := by
  suffices Ensures (Diagnostic.Excused missing crowded)
      (lowerNamed context clauses env) fun _ => True from
    (this.and (lowerNamed_shape clauses env)).imp fun _ both => both.2
  induction clauses with
  | nil => exact .pure trivial
  | cons clause clauses ih =>
      obtain ⟨binder, init⟩ := clause
      refine (each init List.mem_cons_self).andThen fun _ => ?_
      refine (LowerContext.bindTop_ensures (types _ List.mem_cons_self) _).andThen
        fun _ => ?_
      refine (ih (List.forall_mem_cons.mp each).2
        (List.forall_mem_cons.mp types).2).andThen ?_
      exact fun _ => .pure trivial

theorem lowerClauses_ensures
    (each : ∀ index clause entries, clauses[index]? = some clause →
      List.Forall₂ (fun clause entry => clause.1.Stored entry) (clauses.take index)
        entries →
      Ensures (Diagnostic.Excused missing crowded)
        (clause.2.lower context (env.bindAll entries) false) fun _ => True)
    (types : ∀ clause ∈ clauses,
      context.resolution.SuppliesType missing clause.1.type) :
    Ensures (Diagnostic.Excused missing crowded) (lowerClauses context clauses env)
      fun inner => ∃ entries, inner = env.bindAll entries ∧
        List.Forall₂ (fun clause entry => clause.1.Stored entry) clauses entries := by
  suffices Ensures (Diagnostic.Excused missing crowded)
      (lowerClauses context clauses env) fun _ => True from
    (this.and (lowerClauses_shape clauses env)).imp fun _ both => both.2
  induction clauses generalizing env with
  | nil => exact .pure trivial
  | cons clause clauses ih =>
      obtain ⟨binder, init⟩ := clause
      refine (each 0 _ [] rfl .nil).andThen fun _ => ?_
      refine (LowerContext.bindTop_ensures (types _ List.mem_cons_self) _).bind
        fun binding stored => ?_
      refine ih (fun index clause entries source all => ?_)
        (List.forall_mem_cons.mp types).2
      rw [← Scope.bindAll_cons]
      exact each (index + 1) clause _ (by simpa using source)
        (.cons ⟨rfl, stored.1, stored.2⟩ all)

theorem declareClauses_ensures
    (types : ∀ clause ∈ clauses,
      context.resolution.SuppliesType missing clause.1.type) :
    Ensures (Diagnostic.Excused missing crowded) (declareClauses context clauses)
      (List.Forall₂ (fun clause entry => clause.1.Stored entry) clauses) := by
  refine Ensures.mapM fun clause member => ?_
  refine (LowerContext.bindFresh_ensures (types clause member) _).bind ?_
  exact fun binding stored => .pure ⟨rfl, stored.1, stored.2⟩

/-- A variable that is found can be looked up. -/
theorem lookup_ensures {name : Name} {binding : Binding}
    (found : env.get? name = some binding) :
    Ensures permits (liftM (env.lookup name)) fun other => other = binding := by
  refine Ensures.lift ?_
  rw [Scope.lookup, found]
  rfl

theorem lowerStores_ensures
    (each : ∀ init ∈ clauses.map (·.2),
      Ensures (Diagnostic.Excused missing crowded) (init.lower context env false)
        fun _ => True)
    (found : ∀ clause ∈ clauses, ∃ binding, env.get? clause.1.name = some binding)
    (supplied : env.Supplied context.resolution missing) :
    Ensures (Diagnostic.Excused missing crowded) (lowerStores context clauses env)
      fun _ => True := by
  induction clauses with
  | nil => exact .pure trivial
  | cons clause clauses ih =>
      obtain ⟨binder, init⟩ := clause
      obtain ⟨binding, present⟩ := found _ List.mem_cons_self
      refine (lookup_ensures present).bind ?_
      rintro _ rfl
      refine (LowerContext.store_ensures (supplied _ _ present)
        (each init List.mem_cons_self)).andThen fun _ => ?_
      exact ih (List.forall_mem_cons.mp each).2
        (List.forall_mem_cons.mp found).2

theorem lowerTemps_ensures {vars : List (Binder × Core)}
    (each : ∀ init ∈ vars.map (·.2),
      Ensures (Diagnostic.Excused missing crowded) (init.lower context env false)
        fun _ => True)
    (types : ∀ var ∈ vars, context.resolution.SuppliesType missing var.1.type) :
    Ensures (Diagnostic.Excused missing crowded) (lowerTemps context vars env)
      fun _ => True := by
  induction vars with
  | nil => exact .pure trivial
  | cons var vars ih =>
      obtain ⟨binder, init⟩ := var
      refine (each init List.mem_cons_self).andThen fun _ => ?_
      refine (LowerContext.storeTop_ensures (types _ List.mem_cons_self)).andThen
        fun _ => ?_
      refine (ih (List.forall_mem_cons.mp each).2
        (List.forall_mem_cons.mp types).2).andThen ?_
      exact fun _ => .pure trivial

end Core

/-! ## Single nodes -/

theorem Ty.signature?_delegate (params : List SourceTy) (ret : SourceTy) :
    (Ty.delegate params ret).signature? = some (params, ret) := by
  unfold Ty.delegate
  split
  · rename_i noResult
    simp [Ty.signature?, Platform.func, Platform.action, noResult]
  · simp [Ty.signature?, Platform.func]

namespace LowerContext

open Lower

variable {context : LowerContext} {missing : Key → Prop} {crowded : Prop}
variable {env : Scope Binding}
variable {captures : List Param}

theorem lowerAction_ensures {action : Action}
    (types : ∀ type ∈ action.needs, context.resolution.SuppliesType missing type) :
    Ensures (Diagnostic.Excused missing crowded) (context.lowerAction action)
      fun _ => True := by
  cases action with
  | code instrs => exact .emitAll _
  | routine owner name params =>
      refine (platformMethod_ensures (types owner List.mem_cons_self) ?_ _ _).andThen
        fun _ => .emit _
      exact (List.forall_mem_cons.mp types).2
  | onType action type =>
      refine (Ensures.lift (runTy_yields (types type List.mem_cons_self))).andThen ?_
      exact fun _ => .emitAll _

theorem method_ensures {callee : Callee}
    (key : ∀ key ∈ callee.methodKey?, context.resolution.Supplies missing (.method key))
    (platform : callee.methodKey? = none → ∀ type ∈ callee.owner :: callee.params,
      context.resolution.SuppliesType missing type) :
    Ensures (Diagnostic.Excused missing crowded) (context.method callee)
      fun _ => True := by
  unfold method
  cases found : callee.methodKey? with
  | some declared => exact .lift (Resolution.method_yields (key declared found))
  | none =>
      have types := platform found
      exact platformMethod_ensures (types _ List.mem_cons_self)
        (List.forall_mem_cons.mp types).2 _ _

theorem ctor_ensures {callee : Callee}
    (key : ∀ key ∈ callee.ctorKey?, context.resolution.Supplies missing (.ctor key))
    (platform : callee.ctorKey? = none → ∀ type ∈ callee.owner :: callee.params,
      context.resolution.SuppliesType missing type) :
    Ensures (Diagnostic.Excused missing crowded) (context.ctor callee)
      fun _ => True := by
  unfold ctor
  cases found : callee.ctorKey? with
  | some declared => exact .lift (Resolution.ctor_yields (key declared found))
  | none =>
      have types := platform found
      exact platformCtor_ensures (types _ List.mem_cons_self)
        (List.forall_mem_cons.mp types).2

theorem field_ensures {target : FieldTarget}
    (key : ∀ key ∈ target.key?, context.resolution.Supplies missing (.field key))
    (platform : target.key? = none →
      context.resolution.SuppliesType missing target.owner) :
    Ensures (Diagnostic.Excused missing crowded) (context.field target)
      fun _ => True := by
  unfold field
  cases found : target.key? with
  | some declared => exact .lift (Resolution.field_yields (key declared found))
  | none =>
      refine (Ensures.lift (runTy_yields (platform found))).andThen ?_
      exact fun _ => ofImage_ensures _

theorem lowerMember_ensures {use : MemberUse} {operands : Lower Unit}
    (key : ∀ key ∈ use.key?, context.resolution.Supplies missing key)
    (types : ∀ type ∈ use.needs, context.resolution.SuppliesType missing type)
    (operandsEnsure : Ensures (Diagnostic.Excused missing crowded) operands fun _ => True) :
    Ensures (Diagnostic.Excused missing crowded)
      (context.lowerMember use operands tail) fun _ => True := by
  cases use with
  | loadField target =>
      refine (field_ensures (fun found member => key _ ?_) fun absent => ?_).andThen
        fun _ => operandsEnsure.andThen fun _ => .emit _
      · exact Option.mem_map_of_mem _ member
      · exact types _ (by simp [MemberUse.needs, MemberUse.signature, MemberUse.key?, absent])
  | storeField target =>
      refine (field_ensures (fun found member => key _ ?_) fun absent => ?_).andThen
        fun _ => operandsEnsure.andThen fun _ => .emit _
      · exact Option.mem_map_of_mem _ member
      · exact types _ (by simp [MemberUse.needs, MemberUse.signature, MemberUse.key?, absent])
  | call callee =>
      refine (method_ensures (fun found member => key _ ?_) fun absent => ?_).andThen
        fun _ => operandsEnsure.andThen fun _ => .emitCall _ _ _
      · exact Option.mem_map_of_mem _ member
      · simpa [MemberUse.needs, MemberUse.signature, MemberUse.key?, absent] using types
  | write callee =>
      refine (method_ensures (fun found member => key _ ?_) fun absent => ?_).andThen
        fun _ => operandsEnsure.andThen fun _ => .emitCall _ _ _
      · exact Option.mem_map_of_mem _ member
      · simpa [MemberUse.needs, MemberUse.signature, MemberUse.key?, absent] using types
  | new callee =>
      refine (ctor_ensures (fun found member => key _ ?_) fun absent => ?_).andThen
        fun _ => operandsEnsure.andThen fun _ => .emit _
      · exact Option.mem_map_of_mem _ member
      · simpa [MemberUse.needs, MemberUse.signature, MemberUse.key?, absent] using types

theorem fetchCells_ensures {permits : Diagnostic → Prop}
    (shared : ∀ capture ∈ captures, capture.SharedIn env) :
    Ensures permits (env.fetchCells captures) fun _ => True := by
  refine Ensures.forM fun capture member => ?_
  obtain ⟨binding, found, -, boxed⟩ := shared capture member
  refine (Core.lookup_ensures found).bind ?_
  rintro _ rfl
  rw [Binding.fetchCell, if_pos boxed]
  exact load_ensures _

theorem lowerClosure_ensures {closure : Closure}
    (shared : ∀ capture ∈ closure.captures, capture.SharedIn env)
    (ctorKey : context.resolution.Supplies missing (.ctor closure.ctorKey))
    (invokeKey : context.resolution.Supplies missing (.method closure.invokeKey))
    (delegate : context.resolution.SuppliesType missing closure.delegateType) :
    Ensures (Diagnostic.Excused missing crowded) (context.lowerClosure closure env)
      fun _ => True := by
  refine (fetchCells_ensures shared).andThen fun _ => ?_
  refine (Ensures.lift (Resolution.ctor_yields ctorKey)).andThen fun _ => ?_
  refine (Ensures.emit _).andThen fun _ => ?_
  refine (Ensures.lift (Resolution.method_yields invokeKey)).andThen fun _ => ?_
  refine (Ensures.emit _).andThen fun _ => ?_
  exact (delegateCtor_ensures delegate).andThen fun _ => .emit _

theorem lowerBlockCall_ensures {block : Option Block} {arrays : Lower Unit}
    (shared : ∀ capture ∈ captures, capture.SharedIn env)
    (arraysEnsure : Ensures (Diagnostic.Excused missing crowded) arrays fun _ => True)
    (key : ∀ found ∈ block, context.resolution.Supplies missing (.method found.key)) :
    Ensures (Diagnostic.Excused missing crowded)
      (context.lowerBlockCall block captures arrays env) fun _ => True := by
  refine (fetchCells_ensures shared).andThen fun _ => arraysEnsure.andThen fun _ => ?_
  cases block with
  | none => exact .pure trivial
  | some block =>
      refine (Ensures.lift (Resolution.method_yields (key block rfl))).andThen ?_
      exact fun _ => .emit _

theorem lowerLoopCall_ensures {closure : Closure} {function : Binder}
    {params : List SourceTy} {ret : SourceTy} {slots : List Nat}
    (isFunction : function.type = .delegate params ret)
    (functionType : context.resolution.SuppliesType missing function.type)
    (closureEnsures : ∀ binding, binding.type = function.type ∧
        binding.boxed = function.captured →
      Ensures (Diagnostic.Excused missing crowded)
        (context.lowerClosure closure (env.bind function.name binding)) fun _ => True) :
    Ensures (Diagnostic.Excused missing crowded)
      (context.lowerLoopCall closure function slots env tail) fun _ => True := by
  refine (bindFresh_ensures functionType _).bind fun binding stored => ?_
  have bindingType : context.resolution.SuppliesType missing binding.type :=
    stored.1 ▸ functionType
  refine (store_ensures bindingType (closureEnsures binding stored)).andThen fun _ => ?_
  refine (fetch_ensures bindingType).andThen fun _ => ?_
  refine (Ensures.forM fun slot _ => .emit _).andThen fun _ => ?_
  have signature := Ty.signature?_delegate params ret
  rw [← isFunction] at signature
  exact (delegateInvoke_ensures signature functionType).andThen fun _ => .emitCall _ _ _

end LowerContext

/-! ## Expressions -/

theorem Core.Marked.supplied {clauses : List (Binder × Core)} {resolution : Resolution}
    {missing : Key → Prop} (marked : Core.Marked bounds clauses)
    (types : ∀ clause ∈ clauses, resolution.SuppliesType missing clause.1.type) (bound : Bound)
    (member : bound ∈ bounds) : resolution.SuppliesType missing bound.type := by
  have listed : (bound.name, bound.type) ∈
      bounds.map fun bound => (bound.name, bound.type) := List.mem_map_of_mem member
  rw [← marked.pairs] at listed
  obtain ⟨clause, present, same⟩ := List.mem_map.mp listed
  rw [← (Prod.mk.inj same).2]
  exact types clause present

section Expressions

open Lower

variable {typing : TypeContext} {context : LowerContext}
variable {missing : Key → Prop} {crowded : Prop}

/-- Generating the code of an accepted expression fails only for excused reasons,
when storage agrees with what it uses and what its nodes need is supplied. -/
theorem lower_ensures (expr : Expr) {types : Scope SourceTy} {core : Core} {env : Scope Binding}
    (checked : expr.Checks typing types core) (agrees : Agrees types expr.usage env)
    (nodes : ∀ node ∈ core.preorder,
      node.Supplied context.resolution missing context.host)
    (scope : env.Supplied context.resolution missing)
    (tail : Bool) :
    Ensures (Diagnostic.Excused missing crowded) (core.lower context env tail)
      fun _ => True := by
  induction expr using Expr.childInduction generalizing types core env tail with
  | step expr ih =>
      have node := nodes core core.mem_preorder_self
      -- The induction hypothesis for a part that is lowered in this body.
      have down : ∀ {position bounds child part entries},
          Descends position bounds expr core child part → position.InBody →
          List.Forall₂ Bound.Stored bounds entries →
          (∀ bound ∈ bounds, context.resolution.SuppliesType missing bound.type) →
          ∀ last, Ensures (Diagnostic.Excused missing crowded)
            (part.lower context (env.bindAll entries) last) fun _ => True := by
        intro position bounds child part entries step inBody stored supplied last
        refine ih child step.mem_children (step.checks checked)
          (step.agrees inBody checked agrees stored) ?_ (scope.declare stored supplied) last
        exact fun inner member =>
          nodes inner (Core.mem_preorder_of_mem_parts step.mem_parts member)
      have own : ∀ part ∈ core.inPlace, ∀ last,
          Ensures (Diagnostic.Excused missing crowded) (part.lower context env last)
            fun _ => True := by
        intro part member last
        obtain ⟨child, paired⟩ := exists_mem_zip checked.inPlace.length_eq member
        exact down (.own paired) trivial .nil (by simp) last
      have found : ∀ {name type}, name ∈ expr.usage.names →
          types.get? name = some type → ∃ binding, env.get? name = some binding := by
        intro name type free bound
        obtain ⟨binding, present, -⟩ := agrees name free type bound
        exact ⟨binding, present⟩
      cases checked.elaborates with
      | literal value => exact .emitAll _
      | var bound =>
          obtain ⟨binding, present⟩ := found (by simp [Expr.usage]) bound
          refine (Core.lookup_ensures present).bind ?_
          rintro _ rfl
          exact LowerContext.fetch_ensures (scope _ _ present)
      | set bound =>
          obtain ⟨binding, present⟩ :=
            found (by simp [Expr.usage, Usage.mem_names_union]) bound
          refine (Core.lookup_ensures present).bind ?_
          rintro _ rfl
          exact LowerContext.store_ensures (scope _ _ present)
            (own _ List.mem_cons_self false)
      | seq => exact Core.lowerSeq_ensures own
      | logic =>
          rw [Core.lower]
          split
          · exact .emit _
          · refine Ensures.label.andThen fun _ => ?_
            refine (Core.lowerLogic_ensures fun item member =>
              own item member false).andThen fun _ => ?_
            exact mark_ensures _
      | when =>
          rw [Core.lower]
          refine Ensures.label.andThen fun _ => ?_
          refine (own _ (by simp [Core.inPlace]) _).andThen fun _ => ?_
          refine (Ensures.emit _).andThen fun _ => ?_
          refine (own _ (by simp [Core.inPlace]) _).andThen fun _ => ?_
          exact mark_ensures _
      | cond =>
          rw [Core.lower]
          refine Ensures.label.andThen fun _ => ?_
          refine (own _ (by simp [Core.inPlace]) _).andThen fun _ => ?_
          refine Ensures.label.andThen fun _ => ?_
          refine (Ensures.emit _).andThen fun _ => ?_
          refine (own _ (by simp [Core.inPlace]) _).andThen fun _ => ?_
          refine (Ensures.emit _).andThen fun _ => ?_
          refine (mark_ensures _).andThen fun _ => ?_
          refine (own _ (by simp [Core.inPlace]) _).andThen fun _ => ?_
          exact mark_ensures _
      | «while» =>
          rw [Core.lower]
          refine Ensures.label.andThen fun _ => Ensures.label.andThen fun _ => ?_
          refine (mark_ensures _).andThen fun _ => ?_
          refine (own _ (by simp [Core.inPlace]) _).andThen fun _ => ?_
          refine (Ensures.emit _).andThen fun _ => ?_
          refine (own _ (by simp [Core.inPlace]) _).andThen fun _ => ?_
          refine (Ensures.popValue _).andThen fun _ => ?_
          exact (Ensures.emit _).andThen fun _ => mark_ensures _
      | switch =>
          rw [Core.lower]
          refine (own _ (by simp [Core.inPlace]) _).andThen fun _ => ?_
          split
          · refine (Ensures.emit _).andThen fun _ => ?_
            exact own _ (by simp [Core.inPlace]) _
          · refine Ensures.label.andThen fun _ => Ensures.label.andThen fun _ => ?_
            refine (Ensures.mapM_each fun arm =>
              Ensures.label.andThen fun _ => .pure trivial).andThen fun _ => ?_
            refine (Ensures.emit _).andThen fun _ => (Ensures.emit _).andThen fun _ => ?_
            refine (Core.lowerArms_ensures fun arm member => own arm ?_ tail).andThen
              fun _ => ?_
            · simp only [Core.inPlace, List.mem_append, List.mem_cons]
              exact Or.inl (Or.inr member)
            refine (mark_ensures _).andThen fun _ => ?_
            refine (own _ (by simp [Core.inPlace]) _).andThen fun _ => ?_
            exact mark_ensures _
      | @letPar _ _ cores bodyCore inits =>
          have marked := Expr.marked_of_captured inits fun clause core named => by
            rw [named.binder, Binder.of_captured, Binder.of_name]
          have supplied : ∀ core ∈ cores,
              context.resolution.SuppliesType missing core.1.type :=
            fun core member => node.types _ (List.mem_map_of_mem member)
          rw [Core.lower]
          refine (Core.lowerNamed_ensures (fun init member => own init member false)
            supplied).bind fun entries stored => ?_
          exact down .letPar trivial (marked.stored stored) (marked.supplied supplied) tail
      | @letSeq _ _ cores bodyCore _ inits =>
          have supplied : ∀ core ∈ cores,
              context.resolution.SuppliesType missing core.1.type :=
            fun core member => node.types _ (List.mem_map_of_mem member)
          rw [Core.lower]
          refine (Core.lowerClauses_ensures (fun index core entries target stored => ?_)
            supplied).bind ?_
          · obtain ⟨inRange, -⟩ := List.getElem?_eq_some_iff.mp target
            rw [← inits.length_eq] at inRange
            have source := List.getElem?_eq_getElem inRange
            have marked := inits.marked.take index
            refine down (.letSeqClause source target) trivial (marked.stored stored) ?_ false
            exact marked.supplied fun core member => supplied core (List.mem_of_mem_take member)
          · rintro _ ⟨entries, rfl, stored⟩
            exact down .letSeq trivial (inits.marked.stored stored)
              (inits.marked.supplied supplied) tail
      | @letRec _ _ cores bodyCore _ extended inits =>
          have marked := Expr.marked_of_checksTyped inits
          have supplied : ∀ core ∈ cores,
              context.resolution.SuppliesType missing core.1.type :=
            fun core member => node.types _ (List.mem_map_of_mem member)
          rw [Core.lower]
          refine (Core.declareClauses_ensures supplied).bind fun entries stored => ?_
          have stored := marked.stored stored
          have inner := scope.declare stored (marked.supplied supplied)
          refine (Core.lowerStores_ensures (fun init member => ?_)
            (fun core member => ?_) inner).andThen fun _ => ?_
          · obtain ⟨index, clause, core, source, target, rfl⟩ :=
              exists_getElem?_pair inits.length_eq member
            exact down (.letRecClause source target) trivial stored
              (marked.supplied supplied) false
          · have named : core.1.name ∈ (Expr.recBounds _ _).map Bound.name :=
              marked.names ▸ List.mem_map_of_mem
                (f := fun core : Binder × Core => core.1.name) member
            have inScope : FoundAs (types.declare _) (env.bindAll entries) core.1.name :=
              foundAs_declare stored (Or.inl named)
            obtain ⟨binding, present, -⟩ := inScope
            exact ⟨binding, present⟩
          · exact down .letRec trivial stored (marked.supplied supplied) tail
      | @loop id name vars ret body cores bodyCore function captures checkedVars named =>
          have supplied : ∀ core ∈ cores,
              context.resolution.SuppliesType missing core.1.type := by
            intro core member
            refine node.types _ (List.mem_cons_of_mem _ (List.mem_cons_of_mem _ ?_))
            exact List.mem_map_of_mem (f := fun core : Binder × Core => core.1.type) member
          have functionType : function.type =
              .delegate (cores.map fun core => core.1.type) ret := by rw [named]; rfl
          rw [Core.lower]
          refine (Core.lowerTemps_ensures (fun init member => own init member false)
            supplied).andThen fun slots => ?_
          refine LowerContext.lowerLoopCall_ensures functionType
            (node.types _ List.mem_cons_self) fun binding shape => ?_
          refine LowerContext.lowerClosure_ensures ?_ (node.lifted _ List.mem_cons_self)
            (node.lifted _ (List.mem_cons_of_mem _ List.mem_cons_self))
            (node.types _ (List.mem_cons_of_mem _ List.mem_cons_self))
          have stored : List.Forall₂ Bound.Stored
              ((Core.loop id function cores ret captures bodyCore).functionBounds
                (Expr.loop id name vars ret body).crossing) [(function.name, binding)] :=
            .cons ⟨rfl, shape.1, by rw [shape.2, named]; rfl⟩ .nil
          exact sharedIn_captures checked agrees stored
      | lambda =>
          rw [Core.lower]
          exact LowerContext.lowerClosure_ensures
            (sharedIn_captures checked agrees .nil) (node.lifted _ List.mem_cons_self)
            (node.lifted _ (List.mem_cons_of_mem _ List.mem_cons_self))
            (node.types _ List.mem_cons_self)
      | invoke _ signature =>
          rw [Core.lower]
          refine (own _ List.mem_cons_self false).andThen fun _ => ?_
          refine (Core.lowerAll_ensures fun arg member =>
            own arg (List.mem_cons_of_mem _ member) false).andThen fun _ => ?_
          refine (LowerContext.delegateInvoke_ensures signature
            (node.types _ List.mem_cons_self)).andThen fun _ => ?_
          exact .emitCall _ _ _
      | operation _ _ _ acts =>
          cases acts with
          | apply =>
              rw [Core.lower]
              refine (Core.lowerAll_ensures fun operand member =>
                own operand member false).andThen fun _ => ?_
              exact LowerContext.lowerAction_ensures node.types
          | member =>
              rw [Core.lower]
              exact LowerContext.lowerMember_ensures node.member node.types
                (Core.lowerAll_ensures fun operand member => own operand member false)
      | tryCatch =>
          rw [Core.lower]
          refine LowerContext.lowerBlockCall_ensures
            (sharedIn_captures checked agrees .nil) (.pure trivial) ?_
          rintro _ ⟨⟩
          exact node.lifted _ List.mem_cons_self
      | tryFinally =>
          rw [Core.lower]
          refine LowerContext.lowerBlockCall_ensures
            (sharedIn_captures checked agrees .nil) (.pure trivial) ?_
          rintro _ ⟨⟩
          exact node.lifted _ List.mem_cons_self
      | pin =>
          rw [Core.lower, Core.lowerArrays_eq_lowerAll]
          refine LowerContext.lowerBlockCall_ensures
            (sharedIn_captures checked agrees .nil)
            (Core.lowerAll_ensures fun array member => own array member false) ?_
          rintro _ ⟨⟩
          exact node.lifted _ List.mem_cons_self

end Expressions

end ClassForge
