import ClassForge.Proofs.Typing.Program

/-!
# Faults that the checker reports

Checking looks at declarations and expressions only.  It never blames the order of build steps, what
they make, or the target: those faults are left to the build.
-/

namespace ClassForge

/-- A fault that only a build can report. -/
@[simp]
def Diagnostic.OfBuild : Diagnostic → Prop
  | duplicateOutput _ _ _ | unproducible _ _ | unresolved _ | cycle _ _ | missingOutput _ _
  | target _ => True
  | _ => False

namespace Checked

variable {α β : Type}

/-- An outcome of checking: a value, or a fault that is not left to the build. -/
def Sound (outcome : Checked α) : Prop :=
  ∀ diagnostic, outcome = .error diagnostic → ¬diagnostic.OfBuild

@[simp]
theorem sound_ok (value : α) : Sound (.ok value) :=
  fun _ failed => by cases failed

@[simp]
theorem sound_pure (value : α) : Sound (pure value) :=
  sound_ok value

@[simp]
theorem sound_error {diagnostic : Diagnostic} :
    Sound (.error diagnostic : Checked α) ↔ ¬diagnostic.OfBuild := by
  simp [Sound]

@[simp]
theorem sound_throw {diagnostic : Diagnostic} :
    Sound (throw diagnostic : Checked α) ↔ ¬diagnostic.OfBuild :=
  sound_error

@[simp]
theorem sound_bind {first : Checked α} {next : α → Checked β} :
    (first >>= next).Sound ↔ first.Sound ∧ ∀ value, first = .ok value → (next value).Sound := by
  cases first with
  | error diagnostic =>
      change Sound (.error diagnostic) ↔ _
      simp
  | ok value =>
      change (next value).Sound ↔ _
      simp

@[simp]
theorem sound_map {first : Checked α} {form : α → β} : Sound (form <$> first) ↔ first.Sound := by
  rw [map_eq_pure_bind, sound_bind]
  simp

@[simp]
theorem sound_discard {first : Checked α} : Sound (discard first) ↔ first.Sound :=
  sound_map

@[simp]
theorem sound_ite {condition : Prop} [Decidable condition] {first second : Checked α} :
    (if condition then first else second).Sound ↔
      (condition → first.Sound) ∧ (¬condition → second.Sound) := by
  split <;> simp [*]

theorem sound_mapM {action : α → Checked β} {items : List α}
    (each : ∀ item ∈ items, (action item).Sound) : Sound (items.mapM action) := by
  intro diagnostic failed
  obtain ⟨item, member, failed⟩ := exists_of_mapM_eq_error failed
  exact each item member diagnostic failed

theorem sound_forM {check : α → Checked Unit} {items : List α}
    (each : ∀ item ∈ items, (check item).Sound) : Sound (items.forM check) := by
  intro diagnostic failed
  obtain ⟨item, member, failed⟩ := exists_of_forM_eq_error failed
  exact each item member diagnostic failed

theorem sound_foldlM {step : β → α → Checked β} (each : ∀ value item, (step value item).Sound)
    (items : List α) (start : β) : Sound (items.foldlM step start) := by
  induction items generalizing start with
  | nil => exact sound_pure start
  | cons item items ih => simp [each, ih]

theorem sound_optionMapM {action : α → Checked β} (each : ∀ item, (action item).Sound)
    (item? : Option α) : Sound (item?.mapM action) := by
  cases item? with
  | none => exact sound_ok none
  | some item => exact sound_bind.mpr ⟨each item, fun value _ => sound_ok (some value)⟩

end Checked

namespace TypeContext

open Checked

variable {context : TypeContext}

/-! ## Requirements -/

@[simp]
theorem expectExact_sound (site : Site) (expected : SourceTy) (found : Core) :
    (expectExact site expected found).Sound := by
  simp [expectExact]

@[simp]
theorem expectAssignable_sound (site : Site) (goal : SourceTy) (found : Core) :
    (context.expectAssignable site goal found).Sound := by
  simp [expectAssignable]

@[simp]
theorem expectReference_sound (construct : Construct) (type : SourceTy) :
    (context.expectReference construct type).Sound := by
  simp [expectReference]

@[simp]
theorem expectMemory_sound (operand : MemoryOperand) (prim : Prim) (found : Core) :
    (expectMemory operand prim found).Sound := by
  simp [expectMemory]

@[simp]
theorem elementType_sound (array : Core) : (elementType array).Sound := by
  unfold elementType
  split <;> simp

@[simp]
theorem expectReceiver_sound (receiver : Core) : (expectReceiver receiver).Sound := by
  simp [expectReceiver]

@[simp]
theorem expectDelegate_sound (function : Core) (argCount : Nat) :
    (expectDelegate function argCount).Sound := by
  unfold expectDelegate
  split <;> simp

@[simp]
theorem checkLabels_sound (labels : List UInt32) : (checkLabels labels).Sound := by
  unfold checkLabels
  cases repeatedLabel? [] labels <;> cases (labels.map UInt32.toNat).max? <;> simp

@[simp]
theorem lookup_sound (scope : Scope SourceTy) (name : Name) : Sound (scope.lookup name) := by
  unfold Scope.lookup
  split <;> simp

@[simp]
theorem captureTypes_sound (scope : Scope SourceTy) (crossing : Usage) :
    (captureTypes scope crossing).Sound :=
  sound_mapM fun name _ => by simp

/-! ## Members -/

variable {owner : SourceTy} {name : Name}

theorem findField_sound : Sound (context.findField owner name) := by
  unfold findField
  split <;> simp

theorem findProperty_sound : Sound (context.findProperty owner name) := by
  unfold findProperty
  split <;> simp

theorem not_ofBuild_rejection (params args : List SourceTy) :
    ¬(context.rejection params args).OfBuild := by
  unfold rejection
  split <;> simp

@[simp]
theorem select_sound (candidates : List Callee) (args : List SourceTy) :
    Sound (context.select owner name candidates args) := by
  unfold select
  split
  · simp
  · refine sound_ite.mpr ⟨fun _ => by simp, fun _ => ?_⟩
    repeat' split
    all_goals first
      | exact sound_error.mpr (not_ofBuild_rejection _ _)
      | simp

@[simp]
theorem selectCtor_sound (type : SourceTy) (args : List Core) :
    (context.selectCtor type args).Sound :=
  select_sound _ _

variable {isStatic : Bool} {receiver : List Core} {value : Checked Core}

@[simp]
theorem loadField_sound : (context.loadField owner name isStatic receiver).Sound := by
  simp [loadField, accessField, findField_sound]

@[simp]
theorem storeField_sound (sound : value.Sound) :
    (context.storeField owner name isStatic receiver value).Sound := by
  simp [storeField, accessField, findField_sound, sound]

@[simp]
theorem loadProperty_sound : (context.loadProperty owner name isStatic receiver).Sound := by
  simp [loadProperty, accessGetter, findProperty_sound]

@[simp]
theorem storeProperty_sound (sound : value.Sound) :
    (context.storeProperty owner name isStatic receiver value).Sound := by
  simp [storeProperty, accessSetter, findProperty_sound, sound]

@[simp]
theorem callMethod_sound (args : List Core) :
    (context.callMethod owner name receiver args).Sound := by
  simp [callMethod]

/-! ## Nodes by number of operands -/

variable {first second third : Checked Core}

@[simp]
theorem unary_sound (op : UnaryOp) (operand : SourceTy) : Sound (Operators.unary op operand) := by
  unfold Operators.unary
  split <;> simp

@[simp]
theorem binary_sound (op : BinaryOp) (left right : SourceTy) :
    Sound (Operators.binary context op left right) := by
  unfold Operators.binary
  split <;> simp

@[simp]
theorem unaryCore_sound (form : UnaryForm) (sound : first.Sound) :
    (context.unaryCore form first).Sound := by
  cases form <;>
    simp [unaryCore, unaryCore.related, expectValue, expectException, sound]

@[simp]
theorem binaryCore_sound (form : BinaryForm) (left : first.Sound) (right : second.Sound) :
    (context.binaryCore form first second).Sound := by
  cases form with
  | poke =>
      simp only [binaryCore, sound_bind, left, right, expectMemory_sound, true_and]
      intro _ _ _ _ value _
      split <;> simp
  | _ => simp [binaryCore, left, right]

@[simp]
theorem ternaryCore_sound (form : TernaryForm) (isFirst : first.Sound) (isSecond : second.Sound)
    (isThird : third.Sound) : (context.ternaryCore form first second third).Sound := by
  cases form <;> simp [ternaryCore, isFirst, isSecond, isThird]

end TypeContext

/-! ## Expressions -/

namespace Expr

open Checked TypeContext

section Parts

variable {context : TypeContext} {scope : Scope SourceTy}

/-- Checking an expression is sound in every scope. -/
def ElaboratesSoundly (context : TypeContext) (expr : Expr) : Prop :=
  ∀ scope, (elaborate context expr scope).Sound

variable {items : List Expr}

section

variable (each : ∀ item ∈ items, ElaboratesSoundly context item)
include each

theorem elaborateAll_sound :
    (elaborateAll context items scope).Sound := by
  induction items with
  | nil => exact sound_ok []
  | cons item items ih =>
      obtain ⟨first, rest⟩ := List.forall_mem_cons.mp each
      simp [elaborateAll, first _, ih rest]

theorem elaborateTruths_sound :
    (elaborateTruths context items scope).Sound := by
  induction items with
  | nil => exact sound_ok []
  | cons item items ih =>
      obtain ⟨first, rest⟩ := List.forall_mem_cons.mp each
      simp [elaborateTruths, first _, ih rest]

theorem elaborateArgs_sound (params : List SourceTy) :
    (elaborateArgs context items params scope).Sound := by
  induction items generalizing params with
  | nil => exact sound_ok []
  | cons item items ih =>
      cases params with
      | nil => exact sound_ok []
      | cons param params =>
          obtain ⟨first, rest⟩ := List.forall_mem_cons.mp each
          simp [elaborateArgs, first _, ih rest]

end

theorem elaborateArms_sound {arms : List (List UInt32 × Expr)}
    (each : ∀ arm ∈ arms.map (·.2), ElaboratesSoundly context arm) (type : SourceTy) :
    (elaborateArms context arms type scope).Sound := by
  induction arms with
  | nil => exact sound_ok []
  | cons arm arms ih =>
      obtain ⟨first, rest⟩ := List.forall_mem_cons.mp each
      simp [elaborateArms, first _, ih rest]

variable {clauses : List (Name × Expr)}

theorem elaborateNamed_sound (each : ∀ init ∈ clauses.map (·.2), ElaboratesSoundly context init)
    (body : Usage) : (elaborateNamed context clauses body scope).Sound := by
  induction clauses with
  | nil => exact sound_ok []
  | cons clause clauses ih =>
      obtain ⟨first, rest⟩ := List.forall_mem_cons.mp each
      simp [elaborateNamed, first _, ih rest]

theorem elaborateSeq_sound (each : ∀ init ∈ clauses.map (·.2), ElaboratesSoundly context init)
    (body : Usage) : (elaborateSeq context clauses body scope).Sound := by
  induction clauses generalizing scope with
  | nil => exact sound_ok _
  | cons clause clauses ih =>
      obtain ⟨first, rest⟩ := List.forall_mem_cons.mp each
      simp [elaborateSeq, first _, ih rest]

theorem elaborateArrays_sound (each : ∀ array ∈ clauses.map (·.2), ElaboratesSoundly context array)
    (body : Usage) : (elaborateArrays context clauses body scope).Sound := by
  induction clauses with
  | nil => exact sound_ok []
  | cons clause clauses ih =>
      obtain ⟨first, rest⟩ := List.forall_mem_cons.mp each
      simp [elaborateArrays, expectPinnable, first _, ih rest]

variable {typed : List (Param × Expr)}

theorem elaborateTyped_sound (each : ∀ init ∈ typed.map (·.2), ElaboratesSoundly context init)
    (site : Site) (uses : Usage) : (elaborateTyped context typed site uses scope).Sound := by
  induction typed with
  | nil => exact sound_ok []
  | cons clause clauses ih =>
      obtain ⟨first, rest⟩ := List.forall_mem_cons.mp each
      simp [elaborateTyped, first _, ih rest]

theorem elaborateCatches_sound
    (each : ∀ handler ∈ typed.map (·.2), ElaboratesSoundly context handler) (type : SourceTy) :
    (elaborateCatches context typed type scope).Sound := by
  induction typed with
  | nil => exact sound_ok []
  | cons clause clauses ih =>
      obtain ⟨first, rest⟩ := List.forall_mem_cons.mp each
      simp [elaborateCatches, expectException, first _, ih rest]

end Parts

/-- Checking an expression reports no fault that is left to the build. -/
theorem elaborate_sound (context : TypeContext) (expr : Expr) :
    ElaboratesSoundly context expr := by
  induction expr using childInduction with
  | _ expr ih =>
  intro scope
  have all {parts : List Expr} (within : parts ⊆ expr.children) :
      ∀ part ∈ parts, ElaboratesSoundly context part :=
    fun part isPart => ih part (within isPart)
  have last {parts : List Expr} {body : Expr} (same : expr.children = parts ++ [body])
      (scope : Scope SourceTy) : (elaborate context body scope).Sound ∧
        ∀ part ∈ parts, ElaboratesSoundly context part :=
    ⟨ih body (by simp [same]) scope, all (by simp [same])⟩
  cases expr with
  | literal value => cases value <;> simp [elaborate]
  | seq items =>
      have sound : (elaborateAll context items scope).Sound := elaborateAll_sound ih
      simp [elaborate, sound]
  | logic connective items =>
      have sound : (elaborateTruths context items scope).Sound := elaborateTruths_sound ih
      simp [elaborate, sound]
  | switch selector arms default =>
      have sound (type : SourceTy) : (elaborateArms context arms type scope).Sound :=
        elaborateArms_sound (all (by simp [children])) type
      simp only [children, List.forall_mem_cons, List.forall_mem_append, ElaboratesSoundly] at ih
      simp [elaborate, sound, ih, expectSelector]
  | letPar clauses body =>
      have parts := last rfl
      simp [elaborate, elaborateNamed_sound (parts scope).2, (parts _).1]
  | letSeq clauses body =>
      have parts := last rfl
      simp [elaborate, elaborateSeq_sound (parts scope).2, (parts _).1]
  | letRec clauses body =>
      have parts := last rfl
      simp [elaborate, elaborateTyped_sound (parts scope).2, (parts _).1]
  | loop id name vars ret body =>
      have parts := last rfl
      simp [elaborate, elaborateTyped_sound (parts scope).2, (parts _).1, expectResult]
  | pin id arrays body =>
      have parts := last rfl
      simp [elaborate, elaborateArrays_sound (parts scope).2, (parts _).1]
  | staticCall owner name args | new type args =>
      have sound : (elaborateAll context args scope).Sound := elaborateAll_sound ih
      simp [elaborate, sound, expectConcrete]
  | invoke function args =>
      have sound (params : List SourceTy) : (elaborateArgs context args params scope).Sound :=
        elaborateArgs_sound (all (by simp [children])) params
      simp only [children, List.forall_mem_cons, ElaboratesSoundly] at ih
      simp [elaborate, sound, ih]
  | call receiver name args =>
      have sound : (elaborateAll context args scope).Sound :=
        elaborateAll_sound (all (by simp [children]))
      simp only [children, List.forall_mem_cons, ElaboratesSoundly] at ih
      simp [elaborate, sound, ih]
  | tryCatch id body catches =>
      have sound (type : SourceTy) : (elaborateCatches context catches type scope).Sound :=
        elaborateCatches_sound (all (by simp [children])) type
      simp only [children, List.forall_mem_cons, ElaboratesSoundly] at ih
      simp [elaborate, sound, ih]
  | tryFinally id body catches final =>
      have sound (type : SourceTy) : (elaborateCatches context catches type scope).Sound :=
        elaborateCatches_sound (all (by simp [children])) type
      simp only [children, List.forall_mem_cons, List.forall_mem_append, ElaboratesSoundly] at ih
      simp [elaborate, sound, ih]
  | _ =>
      simp only [children, List.forall_mem_cons, ElaboratesSoundly] at ih
      simp [elaborate, ih]

end Expr

/-! ## Modules -/

section Modules

open Checked TypeContext

variable {context : TypeContext}

theorem TypeContext.checkRoutine_sound (arguments : List Param) (ret : SourceTy) (body : Expr) :
    (context.checkRoutine arguments ret body).Sound := by
  simp [checkRoutine, Expr.elaborate_sound context body _, expectResult]

theorem TypeContext.checkBaseCall_sound (cls : ClassDef) (args : List Expr)
    (scope : Scope SourceTy) : (context.checkBaseCall cls args scope).Sound := by
  simp [checkBaseCall, Expr.elaborateAll_sound fun arg _ => Expr.elaborate_sound context arg]

theorem TypeContext.checkClass_sound (cls : ClassDef) : (context.checkClass cls).Sound := by
  simp only [checkClass, sound_bind, sound_pure, implies_true, and_true]
  refine ⟨sound_mapM fun method _ => ?_, fun _ _ => ⟨sound_mapM fun ctor _ => ?_, fun _ _ =>
    sound_mapM fun property _ => ?_⟩⟩
  · simp [checkMethod, sound_optionMapM (checkRoutine_sound _ _)]
  · simp [checkCtor, checkBaseCall_sound, Expr.elaborate_sound context _ _]
  · simp [checkProperty, sound_optionMapM (checkRoutine_sound _ _)]

theorem ClassDef.validate_sound (cls : ClassDef) : Sound cls.validate := by
  simp only [validate, sound_bind]
  refine ⟨by simp [checkShape, checkRule], fun _ _ => ⟨sound_forM fun method _ => ?_, fun _ _ =>
    sound_forM fun property _ => ?_⟩⟩
  · simp [ClassDef.checkMethod, checkRule]
  · simp [ClassDef.checkProperty, checkRule]

theorem Symbols.ofClasses_sound (classes : List ClassDef) (taken : List NodeId)
    (symbols : Symbols) : Sound (ofClasses classes taken symbols) := by
  induction classes generalizing taken symbols with
  | nil => exact sound_ok symbols
  | cons cls classes ih =>
      simp only [ofClasses, sound_bind, cls.validate_sound, ih, implies_true, and_true, true_and]
      refine fun _ _ => ⟨sound_foldlM (fun _ _ => ?_) _ _, fun _ _ =>
        sound_foldlM (fun symbols entry => ?_) _ _⟩
      · exact sound_ite.mpr ⟨fun _ => sound_error.mpr (by simp), fun _ => sound_ok _⟩
      · unfold Symbols.declare
        dsimp only
        split <;> simp

/-- Checking a module reports no fault that is left to the build. -/
theorem Module.check_sound (module : Module) (image : Image) : Sound (module.check image) := by
  simp only [Module.check, sound_bind]
  exact ⟨Symbols.ofClasses_sound _ _ _, fun _ _ => sound_mapM fun cls _ => checkClass_sound cls⟩

end Modules

end ClassForge
