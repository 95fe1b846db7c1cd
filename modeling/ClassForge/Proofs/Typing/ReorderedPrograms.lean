import ClassForge.Proofs.Typing.Descent
import ClassForge.Proofs.Typing.Reordering

/-!
# Checked programs in another order

A module in another order is checked to the same classes and members in another order: every
expression becomes the same checked expression.  What builds the program is therefore the
same list of tasks up to its order.
-/

namespace ClassForge

/-- Whenever the first computation succeeds, the second does with the same result. -/
def Refines {ε α : Type} (first second : Except ε α) : Prop :=
  ∀ result, first = .ok result → second = .ok result

namespace Refines

variable {ε α β : Type}

theorem refl (computation : Except ε α) : Refines computation computation :=
  fun _ done => done

theorem bind {first second : Except ε α} {next other : α → Except ε β}
    (refines : Refines first second) (continues : ∀ value, Refines (next value) (other value)) :
    Refines (first >>= next) (second >>= other) := by
  intro result done
  obtain ⟨value, isValue, rest⟩ := bind_eq_ok.mp done
  exact bind_eq_ok.mpr ⟨value, refines value isValue, continues value result rest⟩

/-- A computation that goes on the same way. -/
theorem bind_same {first second : Except ε α} {next : α → Except ε β}
    (refines : Refines first second) : Refines (first >>= next) (second >>= next) :=
  refines.bind fun value => refl (next value)

end Refines

/-! ## Rules for single nodes -/

namespace TypeContext.Shuffled

variable {context other : TypeContext} (shuffled : context.Shuffled other)

include shuffled

theorem expectAssignable : other.expectAssignable = context.expectAssignable := by
  funext site goal found
  simp only [TypeContext.expectAssignable, shuffled.sameTypes.isAssignable]

theorem expectResult : other.expectResult = context.expectResult := by
  funext site ret found
  simp only [TypeContext.expectResult, shuffled.expectAssignable]

theorem expectReference : other.expectReference = context.expectReference := by
  funext construct type
  simp only [TypeContext.expectReference, shuffled.sameTypes.isReference]

theorem expectException : other.expectException = context.expectException := by
  funext type
  simp only [TypeContext.expectException, shuffled.sameTypes.isAssignable]

theorem expectConcrete : other.expectConcrete = context.expectConcrete := by
  funext type
  simp only [TypeContext.expectConcrete, shuffled.sameTypes.attrs?]

theorem loadField : other.loadField = context.loadField := by
  funext owner name isStatic receiver
  simp only [TypeContext.loadField, TypeContext.accessField, shuffled.findField]

theorem storeField : other.storeField = context.storeField := by
  funext owner name isStatic receiver value
  simp only [TypeContext.storeField, TypeContext.accessField, shuffled.findField,
    shuffled.expectAssignable]

theorem loadProperty : other.loadProperty = context.loadProperty := by
  funext owner name isStatic receiver
  simp only [TypeContext.loadProperty, TypeContext.accessGetter, shuffled.findProperty]

theorem storeProperty : other.storeProperty = context.storeProperty := by
  funext owner name isStatic receiver value
  simp only [TypeContext.storeProperty, TypeContext.accessSetter, shuffled.findProperty,
    shuffled.expectAssignable]

theorem unaryCore : other.unaryCore = context.unaryCore := by
  funext form operand
  have sameValue : other.expectValue = context.expectValue := by
    funext construct type
    simp only [TypeContext.expectValue, shuffled.sameTypes.isValue]
  cases form <;>
    simp only [TypeContext.unaryCore, TypeContext.unaryCore.related, shuffled.loadField,
      shuffled.storeField, shuffled.loadProperty, shuffled.storeProperty, sameValue,
      shuffled.expectReference, shuffled.sameTypes.areRelated, shuffled.expectException]

theorem binaryCore : other.binaryCore = context.binaryCore := by
  funext form left right
  have sameComparable : Operators.isComparable other = Operators.isComparable context := by
    funext left right
    simp only [Operators.isComparable, shuffled.sameTypes.isReference, shuffled.sameTypes.areRelated]
  have sameOperator : Operators.binary other = Operators.binary context := by
    funext op left right
    unfold Operators.binary Operators.binary?
    rw [sameComparable]
  cases form <;>
    simp only [TypeContext.binaryCore, shuffled.storeField, shuffled.storeProperty, sameOperator]

theorem ternaryCore : other.ternaryCore = context.ternaryCore := by
  funext form first second third
  cases form <;> simp only [TypeContext.ternaryCore, shuffled.expectAssignable]

theorem callMethod (owner : SourceTy) (name : Name) (receiver args : List Core) :
    Refines (context.callMethod owner name receiver args)
      (other.callMethod owner name receiver args) :=
  .bind_same fun _ => shuffled.sameTypes.select (shuffled.methodCandidates owner name _)

theorem selectCtor (type : SourceTy) (args : List Core) :
    Refines (context.selectCtor type args) (other.selectCtor type args) :=
  fun _ => shuffled.sameTypes.select (shuffled.ctorCandidates type)

end TypeContext.Shuffled

namespace TypeContext

variable {context : TypeContext}

theorem storeField_refines {value other : Checked Core} (refines : Refines value other)
    (owner : SourceTy) (name : Name) (isStatic : Bool) (receiver : List Core) :
    Refines (context.storeField owner name isStatic receiver value)
      (context.storeField owner name isStatic receiver other) :=
  .bind (.refl _) fun _ => refines.bind_same

theorem storeProperty_refines {value other : Checked Core} (refines : Refines value other)
    (owner : SourceTy) (name : Name) (isStatic : Bool) (receiver : List Core) :
    Refines (context.storeProperty owner name isStatic receiver value)
      (context.storeProperty owner name isStatic receiver other) :=
  .bind (.refl _) fun _ => refines.bind_same

theorem unaryCore_refines {operand other : Checked Core} (refines : Refines operand other)
    (form : UnaryForm) :
    Refines (context.unaryCore form operand) (context.unaryCore form other) := by
  cases form with
  | newArray element =>
      simp only [unaryCore]
      split
      · exact .refl _
      · exact refines.bind_same
  | setStaticField owner name => exact storeField_refines refines owner name true []
  | setStaticProperty owner name => exact storeProperty_refines refines owner name true []
  | _ => exact refines.bind_same

theorem binaryCore_refines {left left' right right' : Checked Core} (lefts : Refines left left')
    (rights : Refines right right') (form : BinaryForm) :
    Refines (context.binaryCore form left right) (context.binaryCore form left' right') := by
  cases form with
  | op op => exact lefts.bind fun _ => rights.bind_same
  | arrayRef => exact lefts.bind fun _ => .bind (.refl _) fun _ => rights.bind_same
  | poke => exact lefts.bind fun _ => .bind (.refl _) fun _ => rights.bind_same
  | setField name =>
      exact lefts.bind fun _ => .bind (.refl _) fun _ => storeField_refines rights _ _ _ _
  | setProperty name =>
      exact lefts.bind fun _ => .bind (.refl _) fun _ => storeProperty_refines rights _ _ _ _

theorem ternaryCore_refines {first first' second second' third third' : Checked Core}
    (firsts : Refines first first') (seconds : Refines second second')
    (thirds : Refines third third') (form : TernaryForm) :
    Refines (context.ternaryCore form first second third)
      (context.ternaryCore form first' second' third') := by
  cases form with
  | arraySet =>
      exact firsts.bind fun _ => .bind (.refl _) fun _ => seconds.bind fun _ =>
        .bind (.refl _) fun _ => thirds.bind_same
  | memCopy =>
      exact firsts.bind fun _ => .bind (.refl _) fun _ => seconds.bind fun _ =>
        .bind (.refl _) fun _ => thirds.bind_same
  | memFill =>
      exact firsts.bind fun _ => .bind (.refl _) fun _ => seconds.bind fun _ =>
        .bind (.refl _) fun _ => thirds.bind_same

end TypeContext

/-! ## Expressions -/

namespace Expr

variable {context other : TypeContext}

mutual

/-- The order of declarations does not matter to what an expression is checked as. -/
theorem elaborate_refines (shuffled : context.Shuffled other) :
    (expr : Expr) → (scope : Scope SourceTy) →
    Refines (elaborate context expr scope) (elaborate other expr scope)
  | .literal _, _ => by
      simp only [elaborate, shuffled.expectReference]
      exact .refl _
  | .var _, _ => .refl _
  | .set _ value, scope => by
      simp only [elaborate, shuffled.expectAssignable]
      exact .bind (.refl _) fun _ => (elaborate_refines shuffled value scope).bind_same
  | .seq items, scope => (elaborateAll_refines shuffled items scope).bind_same
  | .logic _ items, scope => (elaborateTruths_refines shuffled items scope).bind_same
  | .when test body, scope =>
      (elaborate_refines shuffled test scope).bind fun _ => .bind (.refl _) fun _ =>
        (elaborate_refines shuffled body scope).bind_same
  | .cond test yes no, scope =>
      (elaborate_refines shuffled test scope).bind fun _ => .bind (.refl _) fun _ =>
        (elaborate_refines shuffled yes scope).bind fun _ =>
          (elaborate_refines shuffled no scope).bind_same
  | .while test body, scope =>
      (elaborate_refines shuffled test scope).bind fun _ => .bind (.refl _) fun _ =>
        (elaborate_refines shuffled body scope).bind_same
  | .switch selector arms default, scope =>
      .bind (.refl _) fun _ => (elaborate_refines shuffled selector scope).bind fun _ =>
        .bind (.refl _) fun _ => (elaborate_refines shuffled default scope).bind fun _ =>
          (elaborateArms_refines shuffled arms _ scope).bind_same
  | .letPar clauses body, scope =>
      (elaborateNamed_refines shuffled clauses _ scope).bind fun _ =>
        (elaborate_refines shuffled body _).bind_same
  | .letSeq clauses body, scope =>
      (elaborateSeq_refines shuffled clauses _ scope).bind fun _ =>
        (elaborate_refines shuffled body _).bind_same
  | .letRec clauses body, _ =>
      (elaborateTyped_refines shuffled clauses _ _ _).bind fun _ =>
        (elaborate_refines shuffled body _).bind_same
  | .loop _ _ vars _ body, scope => by
      simp only [elaborate, shuffled.expectResult]
      exact (elaborateTyped_refines shuffled vars _ _ scope).bind fun _ =>
        (elaborate_refines shuffled body _).bind_same
  | .lambda _ _ body, _ => (elaborate_refines shuffled body _).bind_same
  | .invoke function args, scope =>
      (elaborate_refines shuffled function scope).bind fun _ => .bind (.refl _) fun _ =>
        (elaborateArgs_refines shuffled args _ scope).bind_same
  | .unary form operand, scope => by
      simp only [elaborate, shuffled.unaryCore]
      exact TypeContext.unaryCore_refines (elaborate_refines shuffled operand scope) form
  | .binary form left right, scope => by
      simp only [elaborate, shuffled.binaryCore]
      exact TypeContext.binaryCore_refines (elaborate_refines shuffled left scope)
        (elaborate_refines shuffled right scope) form
  | .ternary form first second third, scope => by
      simp only [elaborate, shuffled.ternaryCore]
      exact TypeContext.ternaryCore_refines (elaborate_refines shuffled first scope)
        (elaborate_refines shuffled second scope) (elaborate_refines shuffled third scope) form
  | .staticField _ _, _ => by
      simp only [elaborate, shuffled.loadField]
      exact .refl _
  | .staticProperty _ _, _ => by
      simp only [elaborate, shuffled.loadProperty]
      exact .refl _
  | .staticCall _ _ args, scope =>
      (elaborateAll_refines shuffled args scope).bind fun _ => shuffled.callMethod _ _ _ _
  | .call receiver _ args, scope =>
      (elaborate_refines shuffled receiver scope).bind fun _ => .bind (.refl _) fun _ =>
        (elaborateAll_refines shuffled args scope).bind fun _ => shuffled.callMethod _ _ _ _
  | .new _ args, scope => by
      simp only [elaborate, shuffled.expectConcrete]
      exact .bind (.refl _) fun _ => (elaborateAll_refines shuffled args scope).bind fun _ =>
        (shuffled.selectCtor _ _).bind_same
  | .tryCatch _ body catches, scope => by
      simp only [elaborate]
      split
      · exact .refl _
      · exact (elaborate_refines shuffled body scope).bind fun _ =>
          (elaborateCatches_refines shuffled catches _ scope).bind_same
  | .tryFinally _ body catches final, scope =>
      (elaborate_refines shuffled body scope).bind fun _ =>
        (elaborateCatches_refines shuffled catches _ scope).bind fun _ =>
          (elaborate_refines shuffled final scope).bind_same
  | .pin _ arrays body, scope =>
      (elaborateArrays_refines shuffled arrays _ scope).bind fun _ =>
        (elaborate_refines shuffled body _).bind_same

theorem elaborateAll_refines (shuffled : context.Shuffled other) :
    (items : List Expr) → (scope : Scope SourceTy) →
    Refines (elaborateAll context items scope) (elaborateAll other items scope)
  | [], _ => .refl _
  | item :: items, scope =>
      (elaborate_refines shuffled item scope).bind fun _ =>
        (elaborateAll_refines shuffled items scope).bind_same

theorem elaborateTruths_refines (shuffled : context.Shuffled other) :
    (items : List Expr) → (scope : Scope SourceTy) →
    Refines (elaborateTruths context items scope) (elaborateTruths other items scope)
  | [], _ => .refl _
  | item :: items, scope =>
      (elaborate_refines shuffled item scope).bind fun _ => .bind (.refl _) fun _ =>
        (elaborateTruths_refines shuffled items scope).bind_same

theorem elaborateArgs_refines (shuffled : context.Shuffled other) :
    (args : List Expr) → (params : List SourceTy) →
    (scope : Scope SourceTy) →
    Refines (elaborateArgs context args params scope) (elaborateArgs other args params scope)
  | [], _, _ => .refl _
  | _ :: _, [], _ => .refl _
  | arg :: args, param :: params, scope => by
      simp only [elaborateArgs, shuffled.expectAssignable]
      exact (elaborate_refines shuffled arg scope).bind fun _ => .bind (.refl _) fun _ =>
        (elaborateArgs_refines shuffled args params scope).bind_same

theorem elaborateArms_refines (shuffled : context.Shuffled other) :
    (arms : List (List UInt32 × Expr)) → (type : SourceTy) →
    (scope : Scope SourceTy) →
    Refines (elaborateArms context arms type scope) (elaborateArms other arms type scope)
  | [], _, _ => .refl _
  | (_, arm) :: arms, type, scope =>
      (elaborate_refines shuffled arm scope).bind fun _ => .bind (.refl _) fun _ =>
        (elaborateArms_refines shuffled arms type scope).bind_same

theorem elaborateNamed_refines (shuffled : context.Shuffled other) :
    (clauses : List (Name × Expr)) → (body : Usage) →
    (scope : Scope SourceTy) →
    Refines (elaborateNamed context clauses body scope) (elaborateNamed other clauses body scope)
  | [], _, _ => .refl _
  | (_, init) :: clauses, body, scope =>
      (elaborate_refines shuffled init scope).bind fun _ =>
        (elaborateNamed_refines shuffled clauses body scope).bind_same

theorem elaborateSeq_refines (shuffled : context.Shuffled other) :
    (clauses : List (Name × Expr)) → (body : Usage) →
    (scope : Scope SourceTy) →
    Refines (elaborateSeq context clauses body scope) (elaborateSeq other clauses body scope)
  | [], _, _ => .refl _
  | (_, init) :: clauses, body, scope =>
      (elaborate_refines shuffled init scope).bind fun _ =>
        (elaborateSeq_refines shuffled clauses body _).bind_same

theorem elaborateTyped_refines (shuffled : context.Shuffled other) :
    (clauses : List (Param × Expr)) → (site : Site) →
    (uses : Usage) → (scope : Scope SourceTy) →
    Refines (elaborateTyped context clauses site uses scope)
      (elaborateTyped other clauses site uses scope)
  | [], _, _, _ => .refl _
  | (_, init) :: clauses, site, uses, scope => by
      simp only [elaborateTyped, shuffled.expectAssignable]
      exact (elaborate_refines shuffled init scope).bind fun _ => .bind (.refl _) fun _ =>
        (elaborateTyped_refines shuffled clauses site uses scope).bind_same

theorem elaborateCatches_refines (shuffled : context.Shuffled other) :
    (catches : List (Param × Expr)) → (type : SourceTy) →
    (scope : Scope SourceTy) →
    Refines (elaborateCatches context catches type scope)
      (elaborateCatches other catches type scope)
  | [], _, _ => .refl _
  | (_, handler) :: catches, type, scope => by
      simp only [elaborateCatches, shuffled.expectException]
      exact .bind (.refl _) fun _ => (elaborate_refines shuffled handler _).bind fun _ =>
        .bind (.refl _) fun _ => (elaborateCatches_refines shuffled catches type scope).bind_same

theorem elaborateArrays_refines (shuffled : context.Shuffled other) :
    (arrays : List (Name × Expr)) → (body : Usage) →
    (scope : Scope SourceTy) →
    Refines (elaborateArrays context arrays body scope) (elaborateArrays other arrays body scope)
  | [], _, _ => .refl _
  | (_, array) :: arrays, body, scope =>
      (elaborate_refines shuffled array scope).bind fun _ => .bind (.refl _) fun _ =>
        (elaborateArrays_refines shuffled arrays body scope).bind_same

end

end Expr

/-! ## Classes -/

theorem Refines.mapM {ε α β : Type} {action other : α → Except ε β}
    (refines : ∀ item, Refines (action item) (other item)) (items : List α) :
    Refines (items.mapM action) (items.mapM other) := by
  intro results done
  exact mapM_eq_ok.mpr ((mapM_eq_ok.mp done).imp fun item result => refines item result)

theorem Refines.optionMapM {ε α β : Type} {action other : α → Except ε β}
    (refines : ∀ item, Refines (action item) (other item)) (item : Option α) :
    Refines (item.mapM action) (item.mapM other) := by
  cases item with
  | none => exact .refl _
  | some value => exact (refines value).bind_same

/-- Results for a list in another order are the results in another order. -/
theorem mapM_of_perm {ε α β : Type} {action : α → Except ε β} {items shuffled : List α}
    {results : List β} (perm : shuffled.Perm items) (done : items.mapM action = .ok results) :
    ∃ others, shuffled.mapM action = .ok others ∧ others.Perm results := by
  obtain ⟨others, related, sameResults⟩ :=
    List.perm_comp_forall₂ perm (mapM_eq_ok.mp done)
  exact ⟨others, mapM_eq_ok.mpr related, sameResults⟩

namespace TypeContext.Shuffled

variable {context other : TypeContext} (shuffled : context.Shuffled other)

include shuffled

theorem checkRoutine (arguments : List Param) (ret : SourceTy) (body : Expr) :
    Refines (context.checkRoutine arguments ret body) (other.checkRoutine arguments ret body) := by
  simp only [TypeContext.checkRoutine, shuffled.expectResult]
  exact (Expr.elaborate_refines shuffled body _).bind_same

theorem checkMethod (cls : ClassDef) (method : MethodDef) :
    Refines (context.checkMethod cls method) (other.checkMethod cls method) :=
  (Refines.optionMapM (fun _ => shuffled.checkRoutine _ _ _) method.body).bind_same

theorem checkBaseCall (cls : ClassDef) (args : List Expr) (scope : Scope SourceTy) :
    Refines (context.checkBaseCall cls args scope) (other.checkBaseCall cls args scope) := by
  unfold TypeContext.checkBaseCall
  split
  · exact .refl _
  · exact (Expr.elaborateAll_refines shuffled args scope).bind fun _ =>
      (shuffled.selectCtor _ _).bind_same

theorem checkCtor (cls : ClassDef) (ctor : CtorDef) :
    Refines (context.checkCtor cls ctor) (other.checkCtor cls ctor) :=
  (shuffled.checkBaseCall cls _ _).bind fun _ =>
    (Expr.elaborate_refines shuffled ctor.body _).bind_same

theorem checkProperty (cls : ClassDef) (property : PropertyDef) :
    Refines (context.checkProperty cls property) (other.checkProperty cls property) :=
  (Refines.optionMapM (fun _ => shuffled.checkRoutine _ _ _) property.getter).bind fun _ =>
    (Refines.optionMapM (fun _ => shuffled.checkRoutine _ _ _) property.setter).bind_same

theorem checkClass (cls : ClassDef) :
    Refines (context.checkClass cls) (other.checkClass cls) :=
  (Refines.mapM (shuffled.checkMethod cls) cls.methods).bind fun _ =>
    (Refines.mapM (shuffled.checkCtor cls) cls.allCtors).bind fun _ =>
      (Refines.mapM (shuffled.checkProperty cls) cls.properties).bind_same

end TypeContext.Shuffled

/-- A checked class with its members in another order. -/
structure CoreClass.Reordered (cls other : CoreClass) : Prop where
  name : other.name = cls.name
  attrs : other.attrs = cls.attrs
  base : other.base = cls.base
  interfaces : other.interfaces = cls.interfaces
  fields : other.fields.Perm cls.fields
  methods : other.methods.Perm cls.methods
  ctors : other.ctors.Perm cls.ctors
  properties : other.properties.Perm cls.properties

/-- A class in another order is checked to the same in another order. -/
theorem ClassDef.Reordered.checkClass {cls other : ClassDef} {core : CoreClass}
    {context : TypeContext} (reordered : cls.Reordered other)
    (checked : context.checkClass cls = .ok core) :
    ∃ shuffled, context.checkClass other = .ok shuffled ∧ core.Reordered shuffled := by
  have sameArguments : other.arguments = cls.arguments := by
    funext isStatic params
    simp only [ClassDef.arguments, ClassDef.receiver, reordered.selfType]
  have sameMethod : context.checkMethod other = context.checkMethod cls := by
    funext method
    simp only [TypeContext.checkMethod, sameArguments, reordered.name, ClassDef.methodAttrs,
      reordered.attrs]
  have sameCtor : context.checkCtor other = context.checkCtor cls := by
    funext ctor
    simp only [TypeContext.checkCtor, TypeContext.checkBaseCall, ClassDef.baseType,
      sameArguments, reordered.name, reordered.attrs, reordered.base]
  have sameProperty : context.checkProperty other = context.checkProperty cls := by
    funext property
    simp only [TypeContext.checkProperty, sameArguments, reordered.name]
  simp only [TypeContext.checkClass, bind_eq_ok, pure_eq_ok] at checked
  obtain ⟨methods, methodsDone, ctors, ctorsDone, properties, propertiesDone, rfl⟩ := checked
  obtain ⟨otherMethods, otherMethodsDone, methodsPerm⟩ :=
    mapM_of_perm reordered.methods methodsDone
  obtain ⟨otherCtors, otherCtorsDone, ctorsPerm⟩ := mapM_of_perm reordered.allCtors ctorsDone
  obtain ⟨otherProperties, otherPropertiesDone, propertiesPerm⟩ :=
    mapM_of_perm reordered.properties propertiesDone
  refine ⟨⟨other.name, other.attrs, other.base, other.interfaces, other.fields, otherMethods,
    otherCtors, otherProperties⟩, ?_, ⟨reordered.name, reordered.attrs, reordered.base,
    reordered.interfaces, reordered.fields, methodsPerm, ctorsPerm, propertiesPerm⟩⟩
  simp only [TypeContext.checkClass, sameMethod, sameCtor, sameProperty, bind_eq_ok, pure_eq_ok]
  exact ⟨_, otherMethodsDone, _, otherCtorsDone, _, otherPropertiesDone, rfl⟩

/-! ## Tasks -/

namespace CoreClass.Reordered

variable {cls other : CoreClass}

theorem roots (reordered : cls.Reordered other) : other.roots.Perm cls.roots :=
  (((reordered.methods.filterMap _).map _).append (reordered.ctors.flatMap_right _)).append
    (reordered.properties.flatMap_right _)

theorem tasks (reordered : cls.Reordered other) : other.tasks.Perm cls.tasks := by
  have samePreorder : (Core.preorderAll other.roots).Perm (Core.preorderAll cls.roots) := by
    rw [Core.preorderAll_eq_flatMap, Core.preorderAll_eq_flatMap]
    exact reordered.roots.flatMap_right _
  simp only [CoreClass.tasks, CoreClass.declaredSupertypes, reordered.name, reordered.attrs,
    reordered.base, reordered.interfaces]
  exact ((((((reordered.fields.map _).cons _).append (reordered.methods.flatMap_right _)).append
    (reordered.ctors.flatMap_right _)).append (reordered.properties.flatMap_right _)).append
    (samePreorder.flatMap_right _)).append_right _

end CoreClass.Reordered

theorem TypeContext.checkClasses_reordered {context : TypeContext} {classes others : List ClassDef}
    {program : Program} (related : List.Forall₂ ClassDef.Reordered classes others)
    (checked : classes.mapM context.checkClass = .ok program) :
    ∃ shuffled : Program, others.mapM context.checkClass = .ok shuffled ∧
      List.Forall₂ CoreClass.Reordered program shuffled := by
  rw [mapM_eq_ok] at checked
  simp only [mapM_eq_ok]
  induction related generalizing program with
  | nil =>
      cases checked
      exact ⟨[], .nil, .nil⟩
  | cons holds _ ih =>
      obtain ⟨core, rest, first, later, rfl⟩ := List.forall₂_cons_left_iff.mp checked
      obtain ⟨shuffled, isShuffled, sameClass⟩ := holds.checkClass first
      obtain ⟨others, areOthers, sameClasses⟩ := ih later
      exact ⟨shuffled :: others, .cons isShuffled areOthers, .cons sameClass sameClasses⟩

/-- A module in another order is checked to a program that the same tasks build. -/
theorem Module.Reordered.check {module other : Module} {image : Image} {program : Program}
    (reordered : module.Reordered other) (checked : module.check image = .ok program)
    (unique : ∀ symbols, Symbols.ofModule module = .ok symbols → symbols.UniqueNames) :
    ∃ shuffled : Program, other.check image = .ok shuffled ∧
      shuffled.tasks.Perm program.tasks := by
  simp only [Module.check, bind_eq_ok] at checked ⊢
  obtain ⟨symbols, collected, classesChecked⟩ := checked
  obtain ⟨otherSymbols, otherCollected, entries⟩ := reordered.ofModule collected
  have shuffled : TypeContext.Shuffled ⟨symbols, image⟩ ⟨otherSymbols, image⟩ :=
    ⟨rfl, entries, (Symbols.ofModule_eq_ok.mp collected).2.2.2, unique symbols collected⟩
  obtain ⟨classes, classesPerm, related⟩ := reordered
  obtain ⟨permuted, permutedChecked, permutedPerm⟩ := mapM_of_perm classesPerm classesChecked
  obtain ⟨others, othersChecked, sameClasses⟩ := TypeContext.checkClasses_reordered related
    (Refines.mapM shuffled.checkClass classes permuted permutedChecked)
  refine ⟨others, ⟨otherSymbols, otherCollected, othersChecked⟩, ?_⟩
  exact (flatMap_perm_of_forall₂ sameClasses fun _ _ => CoreClass.Reordered.tasks).trans
    (permutedPerm.flatMap_right _)

end ClassForge
