import ClassForge.Proofs.Typing.Declarations
import Mathlib.Data.List.Nodup
import Mathlib.Data.List.Perm.Basic

/-!
# Declarations in another order

A module can be written with its classes, and the members of each class, in another
order.  Collecting its declarations succeeds all the same and gives the same entries in
another order, and every question about types gets the same answer.  Overloads are found in
another order, which does not matter to the choice among them.
-/

namespace ClassForge

variable {module : Module} {key : Key} {callee : Callee} {candidates : List Callee}
variable {args : List SourceTy}

/-! ## Reordered modules -/

/-- A class with its members in another order. -/
structure ClassDef.Reordered (cls other : ClassDef) : Prop where
  name : other.name = cls.name
  attrs : other.attrs = cls.attrs
  base : other.base = cls.base
  interfaces : other.interfaces = cls.interfaces
  fields : other.fields.Perm cls.fields
  methods : other.methods.Perm cls.methods
  ctors : other.ctors.Perm cls.ctors
  properties : other.properties.Perm cls.properties

/-- A module with its classes, and the members of each class, in another order. -/
def Module.Reordered (module other : Module) : Prop :=
  ∃ classes : List ClassDef, classes.Perm module.classes ∧
    List.Forall₂ ClassDef.Reordered classes other.classes

theorem flatMap_perm_of_forall₂ {α β γ : Type} {relation : α → β → Prop} {left : List α}
    {right : List β} {first : α → List γ} {second : β → List γ}
    (related : List.Forall₂ relation left right)
    (perm : ∀ item other, relation item other → (second other).Perm (first item)) :
    (right.flatMap second).Perm (left.flatMap first) := by
  induction related with
  | nil => exact .refl _
  | cons holds _ ih =>
      rw [List.flatMap_cons, List.flatMap_cons]
      exact (perm _ _ holds).append ih

/-- What classes contribute to a list, when each contributes the same in whatever order. -/
theorem Module.Reordered.flatMap_perm {γ : Type} {other : Module}
    (reordered : module.Reordered other) {contribution : ClassDef → List γ}
    (perm : ∀ cls shuffled : ClassDef, cls.Reordered shuffled →
      (contribution shuffled).Perm (contribution cls)) :
    (other.classes.flatMap contribution).Perm (module.classes.flatMap contribution) := by
  obtain ⟨classes, sameClasses, related⟩ := reordered
  exact (flatMap_perm_of_forall₂ related perm).trans (sameClasses.flatMap_right _)

namespace ClassDef.Reordered

variable {cls other : ClassDef}

variable (reordered : cls.Reordered other)
include reordered

theorem selfType : other.selfType = cls.selfType :=
  congrArg Ty.declared reordered.name

theorem allCtors : other.allCtors.Perm cls.allCtors := by
  have sameEmpty : other.ctors.isEmpty = cls.ctors.isEmpty := reordered.ctors.isEmpty_eq
  unfold ClassDef.allCtors
  rw [sameEmpty, reordered.attrs]
  split
  · exact .refl _
  · exact reordered.ctors

theorem roots : other.roots.Perm cls.roots :=
  ((reordered.methods.filterMap _).append (reordered.ctors.flatMap_right _)).append
    (reordered.properties.flatMap_right _)

theorem boundaryIds :
    other.boundaryIds.Perm cls.boundaryIds :=
  reordered.roots.flatMap_right _

theorem declarations :
    other.declarations.Perm cls.declarations := by
  have sameProperty : declarations.ofProperty other = declarations.ofProperty cls := by
    funext property
    simp only [declarations.ofProperty, reordered.name]
  simp only [ClassDef.declarations, ClassDef.methodAttrs, sameProperty, reordered.name,
    reordered.attrs, reordered.base, reordered.interfaces]
  exact ((((reordered.fields.map _).cons _).append (reordered.methods.map _)).append
    (reordered.allCtors.map _)).append (reordered.properties.flatMap_right _)

end ClassDef.Reordered

/-! ## Collecting declarations -/

/-- A class in another order keeps the rules. -/
theorem ClassDef.Reordered.validate {cls other : ClassDef} (reordered : cls.Reordered other)
    (valid : cls.validate = .ok ()) : other.validate = .ok () := by
  have sameShape : other.checkShape = cls.checkShape := by
    simp only [ClassDef.checkShape, reordered.name, reordered.attrs, reordered.base,
      reordered.selfType, reordered.fields.isEmpty_eq, reordered.ctors.isEmpty_eq,
      reordered.methods.any_eq]
  have sameMethod : other.checkMethod = cls.checkMethod := by
    funext method
    simp only [ClassDef.checkMethod, reordered.name, reordered.attrs]
  have sameProperty : other.checkProperty = cls.checkProperty := by
    funext property
    simp only [ClassDef.checkProperty, reordered.name]
  simp only [ClassDef.validate, bind_eq_ok, sameShape, sameMethod, sameProperty] at valid ⊢
  obtain ⟨⟨⟩, shape, ⟨⟩, methods, properties⟩ := valid
  refine ⟨(), shape, (), forM_eq_ok.mpr fun method member => ?_,
    forM_eq_ok.mpr fun property member => ?_⟩
  · exact forM_eq_ok.mp methods method (reordered.methods.mem_iff.mp member)
  · exact forM_eq_ok.mp properties property (reordered.properties.mem_iff.mp member)

/-- No key of a table occurs twice. -/
def KeyTable.Keyed {α : Type} (table : KeyTable α) : Prop :=
  (table.entries.map Prod.fst).Nodup

namespace KeyTable

variable {α : Type} {table other : KeyTable α}

theorem contains_iff :
    table.contains key = true ↔ key ∈ table.entries.map Prod.fst := by
  rw [contains, get?, Option.isSome_iff_ne_none, ne_eq, List.lookup_eq_none_iff]
  simp

theorem get?_eq_some_iff (keyed : table.Keyed) {value : α} :
    table.get? key = some value ↔ (key, value) ∈ table.entries := by
  refine ⟨mem_entries_of_get?, fun member => ?_⟩
  have present : table.contains key = true :=
    contains_iff.mpr (List.mem_map.mpr ⟨_, member, rfl⟩)
  obtain ⟨found, isFound⟩ := Option.isSome_iff_exists.mp present
  rw [isFound]
  have same := List.inj_on_of_nodup_map keyed (mem_entries_of_get? isFound) member rfl
  rw [(Prod.mk.inj same).2]

theorem Keyed.of_perm (keyed : table.Keyed) (perm : other.entries.Perm table.entries) :
    other.Keyed :=
  (perm.map Prod.fst).nodup_iff.mpr keyed

theorem Keyed.of_append (keyed : table.Keyed) {before after : List (Key × α)}
    (entries : table.entries = before ++ after) : KeyTable.Keyed ⟨before⟩ := by
  refine List.Nodup.sublist (List.Sublist.map _ ?_) keyed
  rw [entries]
  exact List.sublist_append_left _ _

/-- The order of its entries does not matter to look-ups in a table. -/
theorem get?_of_perm (keyed : table.Keyed) (perm : other.entries.Perm table.entries)
    (key : Key) : other.get? key = table.get? key := by
  refine Option.ext fun value => ?_
  rw [get?_eq_some_iff keyed, get?_eq_some_iff (keyed.of_perm perm), perm.mem_iff]

end KeyTable

namespace Symbols

variable {symbols extended : Symbols}
variable {taken : List NodeId}

theorem declare_eq_ok {decl : Declaration} (keyed : symbols.Keyed) :
    symbols.declare key decl = .ok extended ↔
      extended.entries = symbols.entries ++ [(key, decl)] ∧ extended.Keyed := by
  have keyed_iff : extended.entries = symbols.entries ++ [(key, decl)] →
      (extended.Keyed ↔ ¬symbols.contains key = true) := by
    intro shape
    rw [KeyTable.contains_iff, KeyTable.Keyed, shape, List.map_append, List.map_singleton,
      ← List.concat_eq_append, List.nodup_concat]
    exact and_iff_left keyed
  rw [and_congr_right keyed_iff, declare, KeyTable.insert?]
  cases taken : symbols.contains key with
  | true => simp
  | false =>
      obtain ⟨entries⟩ := extended
      simp [eq_comm]

theorem ok_eq_ok (keyed : symbols.Keyed) :
    (.ok symbols : Except Diagnostic Symbols) = .ok extended ↔
      extended.entries = symbols.entries ++ [] ∧ extended.Keyed := by
  rw [Except.ok.injEq, List.append_nil]
  constructor
  · rintro rfl
    exact ⟨rfl, keyed⟩
  · rintro ⟨same, -⟩
    cases symbols
    cases extended
    exact congrArg KeyTable.mk same.symm

theorem declareAll_eq_ok {declarations : List (Key × Declaration)} (keyed : symbols.Keyed) :
    declarations.foldlM (fun symbols (key, decl) => symbols.declare key decl) symbols =
        .ok extended ↔
      extended.entries = symbols.entries ++ declarations ∧ extended.Keyed := by
  induction declarations generalizing symbols with
  | nil => exact ok_eq_ok keyed
  | cons declaration declarations ih =>
      obtain ⟨key, decl⟩ := declaration
      rw [List.foldlM_cons, bind_eq_ok]
      constructor
      · rintro ⟨middle, first, rest⟩
        obtain ⟨shape, middleKeyed⟩ := (declare_eq_ok keyed).mp first
        obtain ⟨entries, extendedKeyed⟩ := (ih middleKeyed).mp rest
        exact ⟨by rw [entries, shape, List.append_assoc, List.singleton_append], extendedKeyed⟩
      · rintro ⟨entries, extendedKeyed⟩
        rw [← List.singleton_append, ← List.append_assoc] at entries
        have middleKeyed : KeyTable.Keyed ⟨symbols.entries ++ [(key, decl)]⟩ :=
          extendedKeyed.of_append entries
        exact ⟨_, (declare_eq_ok keyed).mpr ⟨rfl, middleKeyed⟩,
          (ih middleKeyed).mpr ⟨entries, extendedKeyed⟩⟩

theorem takeIds_eq_ok {ids after : List NodeId} {fault : NodeId → Diagnostic}
    (distinct : taken.Nodup) :
    ids.foldlM (fun taken id =>
        if taken.contains id then Except.error (fault id) else .ok (id :: taken)) taken =
        .ok after ↔
      after = ids.reverse ++ taken ∧ after.Nodup := by
  induction ids generalizing taken with
  | nil =>
      rw [List.foldlM_nil, pure_eq_ok, List.reverse_nil, List.nil_append]
      constructor
      · rintro rfl
        exact ⟨rfl, distinct⟩
      · rintro ⟨rfl, -⟩
        rfl
  | cons id ids ih =>
      rw [List.foldlM_cons, bind_eq_ok, List.reverse_cons, List.append_assoc,
        List.singleton_append]
      by_cases present : id ∈ taken
      · simp only [List.contains_eq_mem, present, decide_true, if_true, reduceCtorEq, false_and,
          exists_false, false_iff, not_and]
        rintro rfl allDistinct
        exact (List.nodup_cons.mp (List.nodup_append.mp allDistinct).2.1).1 present
      · have fresh : taken.contains id = false := by simpa using present
        simp only [fresh, Bool.false_eq_true, if_false, Except.ok.injEq, exists_eq_left']
        exact ih (List.nodup_cons.mpr ⟨present, distinct⟩)

theorem ofClasses_eq_ok {classes : List ClassDef} (distinct : taken.Nodup) (keyed : symbols.Keyed) :
    ofClasses classes taken symbols = .ok extended ↔
      (∀ cls ∈ classes, cls.validate = .ok ()) ∧
        (classes.flatMap ClassDef.boundaryIds ++ taken).Nodup ∧
        extended.entries = symbols.entries ++ classes.flatMap ClassDef.declarations ∧
        extended.Keyed := by
  induction classes generalizing taken symbols with
  | nil => simpa [ofClasses, distinct] using ok_eq_ok keyed
  | cons cls classes ih =>
      have ids_perm : (classes.flatMap ClassDef.boundaryIds ++
          (cls.boundaryIds.reverse ++ taken)).Perm
            (cls.boundaryIds ++ classes.flatMap ClassDef.boundaryIds ++ taken) := by
        rw [← List.append_assoc]
        refine List.Perm.append_right _ ?_
        exact ((List.reverse_perm _).append_left _).trans List.perm_append_comm
      simp only [ofClasses, bind_eq_ok, ClassDef.takeNodeIds, takeIds_eq_ok distinct,
        ClassDef.declare, declareAll_eq_ok keyed, List.forall_mem_cons, List.flatMap_cons]
      constructor
      · rintro ⟨⟨⟩, valid, after, ⟨rfl, stillDistinct⟩, middle, ⟨shape, middleKeyed⟩, rest⟩
        obtain ⟨allValid, allDistinct, entries, extendedKeyed⟩ :=
          (ih stillDistinct middleKeyed).mp rest
        refine ⟨⟨valid, allValid⟩, ids_perm.nodup_iff.mp allDistinct, ?_, extendedKeyed⟩
        rw [entries, shape, List.append_assoc]
      · rintro ⟨⟨valid, allValid⟩, allDistinct, entries, extendedKeyed⟩
        have restDistinct := ids_perm.nodup_iff.mpr allDistinct
        rw [← List.append_assoc] at entries
        have middleKeyed : KeyTable.Keyed ⟨symbols.entries ++ cls.declarations⟩ :=
          extendedKeyed.of_append entries
        have stillDistinct := (List.nodup_append.mp restDistinct).2.1
        exact ⟨(), valid, _, ⟨rfl, stillDistinct⟩, _, ⟨rfl, middleKeyed⟩,
          (ih stillDistinct middleKeyed).mpr ⟨allValid, restDistinct, entries, extendedKeyed⟩⟩

/-- The declarations of a module are collected when its classes keep the rules, no boundary
number is used twice and no key is declared twice. -/
theorem ofModule_eq_ok :
    ofModule module = .ok symbols ↔
      (∀ cls ∈ module.classes, cls.validate = .ok ()) ∧
        (module.classes.flatMap ClassDef.boundaryIds).Nodup ∧
        symbols.entries = module.classes.flatMap ClassDef.declarations ∧ symbols.Keyed := by
  have collected : ofModule module = .ok symbols ↔ _ :=
    ofClasses_eq_ok List.nodup_nil List.nodup_nil
  simpa [KeyTable.empty] using collected

end Symbols

/-- The declarations of a reordered module are collected as well. -/
theorem Module.Reordered.ofModule {other : Module} {symbols : Symbols}
    (reordered : module.Reordered other) (collected : Symbols.ofModule module = .ok symbols) :
    ∃ shuffled : Symbols, Symbols.ofModule other = .ok shuffled ∧
      shuffled.entries.Perm symbols.entries := by
  obtain ⟨valid, ids, entries, keyed⟩ := Symbols.ofModule_eq_ok.mp collected
  have perm : (other.classes.flatMap ClassDef.declarations).Perm symbols.entries :=
    entries ▸ reordered.flatMap_perm fun _ _ => ClassDef.Reordered.declarations
  refine ⟨⟨_⟩, Symbols.ofModule_eq_ok.mpr ⟨?_, ?_, rfl, keyed.of_perm perm⟩, perm⟩
  · intro cls member
    obtain ⟨classes, sameClasses, related⟩ := reordered
    obtain ⟨original, present, holds⟩ := exists_related_left related member
    exact holds.validate (valid original (sameClasses.mem_iff.mp present))
  · exact (reordered.flatMap_perm fun _ _ => ClassDef.Reordered.boundaryIds).nodup_iff.mpr ids

/-! ## Types in context -/

namespace Symbols

/-- A type has at most one field and at most one property of a name. -/
structure UniqueNames (symbols : Symbols) : Prop where
  fields : ∀ {key other : FieldKey} {decl another : FieldDecl},
    (Key.field key, Declaration.field decl) ∈ symbols.entries →
    (Key.field other, Declaration.field another) ∈ symbols.entries →
    key.owner = other.owner → key.name = other.name → key = other
  properties : ∀ {key other : PropertyKey} {decl another : PropertyDecl},
    (Key.property key, Declaration.property decl) ∈ symbols.entries →
    (Key.property other, Declaration.property another) ∈ symbols.entries →
    key.owner = other.owner → key.name = other.name → key = other

variable {symbols : Symbols}

theorem fieldNamed?_eq_some_iff (keyed : symbols.Keyed) (unique : symbols.UniqueNames)
    {owner name : Name} {key : FieldKey} {decl : FieldDecl} :
    symbols.fieldNamed? owner name = some (key, decl) ↔
      (.field key, .field decl) ∈ symbols.entries ∧ key.owner = owner ∧ key.name = name := by
  refine ⟨mem_of_fieldNamed?, fun ⟨member, isOwner, isName⟩ => ?_⟩
  have found : (symbols.fieldNamed? owner name).isSome = true :=
    List.findSome?_isSome_iff.mpr ⟨_, member, by simp [isOwner, isName]⟩
  obtain ⟨⟨other, another⟩, isFound⟩ := Option.isSome_iff_exists.mp found
  obtain ⟨present, otherOwner, otherName⟩ := mem_of_fieldNamed? isFound
  obtain rfl := unique.fields member present (isOwner.trans otherOwner.symm)
    (isName.trans otherName.symm)
  have same := List.inj_on_of_nodup_map keyed member present rfl
  simp only [Prod.mk.injEq, Declaration.field.injEq, true_and] at same
  rw [isFound, same]

theorem propertyNamed?_eq_some_iff (keyed : symbols.Keyed) (unique : symbols.UniqueNames)
    {owner name : Name} {key : PropertyKey} {decl : PropertyDecl} :
    symbols.propertyNamed? owner name = some (key, decl) ↔
      (.property key, .property decl) ∈ symbols.entries ∧ key.owner = owner ∧
        key.name = name := by
  refine ⟨mem_of_propertyNamed?, fun ⟨member, isOwner, isName⟩ => ?_⟩
  have found : (symbols.propertyNamed? owner name).isSome = true :=
    List.findSome?_isSome_iff.mpr ⟨_, member, by simp [isOwner, isName]⟩
  obtain ⟨⟨other, another⟩, isFound⟩ := Option.isSome_iff_exists.mp found
  obtain ⟨present, otherOwner, otherName⟩ := mem_of_propertyNamed? isFound
  obtain rfl := unique.properties member present (isOwner.trans otherOwner.symm)
    (isName.trans otherName.symm)
  have same := List.inj_on_of_nodup_map keyed member present rfl
  simp only [Prod.mk.injEq, Declaration.property.injEq, true_and] at same
  rw [isFound, same]

end Symbols

/-! ## Overloads -/

theorem find?_eq_some_of_unique {α β : Type} [BEq β] [LawfulBEq β] {measure : α → β}
    {items : List α} {item : α} {value : β}
    (unique : ∀ first ∈ items, ∀ second ∈ items,
      measure first = measure second → first = second) :
    items.find? (fun other => measure other == value) = some item ↔
      item ∈ items ∧ measure item = value := by
  constructor
  · intro found
    exact ⟨List.mem_of_find?_eq_some found, by simpa using List.find?_some found⟩
  · rintro ⟨member, rfl⟩
    have found : (items.find? fun other => measure other == measure item).isSome = true :=
      List.find?_isSome.mpr ⟨item, member, by simp⟩
    obtain ⟨first, isFirst⟩ := Option.isSome_iff_exists.mp found
    have same : measure first = measure item := by simpa using List.find?_some isFirst
    rw [isFirst, unique first (List.mem_of_find?_eq_some isFirst) item member same]

namespace TypeContext

variable {callees : List Callee}

/-- Add callees one by one, unless the parameters are there. -/
def keepFirst (kept : List Callee) (callee : Callee) : List Callee :=
  if kept.any fun other => other.params == callee.params then kept else kept ++ [callee]

theorem keepFirst_nodup {kept : List Callee} (distinct : (kept.map Callee.params).Nodup)
    (callee : Callee) : ((keepFirst kept callee).map Callee.params).Nodup := by
  unfold keepFirst
  split
  · exact distinct
  · rename_i absent
    rw [List.map_append, List.map_singleton, ← List.concat_eq_append, List.nodup_concat]
    refine ⟨fun present => absent ?_, distinct⟩
    obtain ⟨other, member, same⟩ := List.mem_map.mp present
    exact List.any_eq_true.mpr ⟨other, member, by simp [same]⟩

theorem foldl_keepFirst_nodup {kept : List Callee} (distinct : (kept.map Callee.params).Nodup)
    (callees : List Callee) : ((callees.foldl keepFirst kept).map Callee.params).Nodup := by
  induction callees generalizing kept with
  | nil => exact distinct
  | cons callee callees ih => exact ih (keepFirst_nodup distinct callee)

/-- What was kept hides the same as the callees that it was kept of. -/
theorem find?_foldl_keepFirst (kept callees : List Callee) (params : List SourceTy) :
    (callees.foldl keepFirst kept).find? (fun other => other.params == params) =
      (kept ++ callees).find? fun other => other.params == params := by
  induction callees generalizing kept with
  | nil => rw [List.append_nil, List.foldl_nil]
  | cons callee callees ih =>
      rw [List.foldl_cons, ih, keepFirst]
      split
      · rename_i present
        obtain ⟨other, member, same⟩ := List.any_eq_true.mp present
        rw [List.find?_append, List.find?_append, List.find?_cons]
        split
        · rename_i isOne
          have found : (kept.find? fun other => other.params == params).isSome = true :=
            List.find?_isSome.mpr ⟨other, member, by grind⟩
          obtain ⟨first, isFirst⟩ := Option.isSome_iff_exists.mp found
          simp [isFirst]
        · rfl
      · rw [List.append_assoc, List.singleton_append]

theorem dropHidden_eq (callees : List Callee) : dropHidden callees = callees.foldl keepFirst [] :=
  rfl

theorem dropHidden_nodup (callees : List Callee) :
    ((dropHidden callees).map Callee.params).Nodup := by
  have none : (([] : List Callee).map Callee.params).Nodup := List.nodup_nil
  exact foldl_keepFirst_nodup none callees

/-- A callee is kept when it is the first with its parameters. -/
theorem mem_dropHidden :
    callee ∈ dropHidden callees ↔
      callees.find? (fun other => other.params == callee.params) = some callee := by
  have kept := find?_foldl_keepFirst [] callees callee.params
  rw [List.nil_append, ← dropHidden_eq] at kept
  rw [← kept, find?_eq_some_of_unique fun _ first _ second =>
    List.inj_on_of_nodup_map (dropHidden_nodup callees) first second]
  exact (and_iff_left rfl).symm

/-- Lists in which the same callee comes first for all parameters keep the same callees. -/
theorem dropHidden_perm {shuffled : List Callee}
    (same : ∀ params, shuffled.find? (fun other => other.params == params) =
      callees.find? fun other => other.params == params) :
    (dropHidden shuffled).Perm (dropHidden callees) := by
  refine (List.perm_ext_iff_of_nodup (.of_map _ (dropHidden_nodup _))
    (.of_map _ (dropHidden_nodup _))).mpr fun callee => ?_
  rw [mem_dropHidden, mem_dropHidden, same]

/-- A call means the only candidate with exactly the parameters, or if there is none the only
one that accepts the arguments. -/
theorem select_eq_ok {context : TypeContext} {owner : SourceTy} {member : Name} :
    context.select owner member candidates args = .ok callee ↔
      let fitting := candidates.filter fun callee => callee.params.length == args.length
      (fitting.filter fun callee => callee.params == args) = [callee] ∨
        (fitting.filter fun callee => callee.params == args) = [] ∧
          (fitting.filter fun callee => context.accepts callee.params args) = [callee] := by
  unfold select
  cases candidates with
  | nil => simp
  | cons first rest =>
      dsimp only
      generalize List.filter (fun callee : Callee => callee.params.length == args.length)
        (first :: rest) = fitting
      split
      · rename_i empty
        simp [List.isEmpty_iff.mp empty]
      · cases fitting.filter fun callee => callee.params == args with
        | cons only others => cases others <;> simp
        | nil =>
            cases fitting.filter fun callee => context.accepts callee.params args with
            | cons only others => cases others <;> simp
            | nil => cases fitting with
              | nil => simp
              | cons only others => cases others <;> simp

end TypeContext

/-- Two contexts with the same types, which may have different members. -/
structure TypeContext.SameTypes (context other : TypeContext) : Prop where
  image : other.image = context.image
  type? : ∀ name, other.symbols.type? name = context.symbols.type? name
  parents_length : other.parents.length = context.parents.length

namespace TypeContext.SameTypes

variable {context other : TypeContext} (same : context.SameTypes other)

include same

theorem isValue (type : SourceTy) : other.isValue type = context.isValue type := by
  unfold TypeContext.isValue Symbols.isValue
  rw [same.image]
  cases type <;> simp only [same.type?]

theorem isReference (type : SourceTy) : other.isReference type = context.isReference type := by
  unfold TypeContext.isReference
  rw [same.isValue]

theorem attrs? (type : SourceTy) : other.attrs? type = context.attrs? type := by
  unfold TypeContext.attrs?
  simp only [same.type?]

theorem base? (type : SourceTy) : other.base? type = context.base? type := by
  unfold TypeContext.base?
  simp only [same.type?, same.image]

theorem supertypes (type : SourceTy) : other.supertypes type = context.supertypes type := by
  unfold TypeContext.supertypes TypeContext.interfaces
  simp only [same.base?, same.type?, same.image]

theorem climb (steps : Nat) (chain : List SourceTy) (last : SourceTy) :
    other.climb steps chain last = context.climb steps chain last := by
  induction steps generalizing chain last with
  | zero => rfl
  | succ steps ih => simp only [TypeContext.climb, same.base?, ih]

theorem baseChain (type : SourceTy) : other.baseChain type = context.baseChain type := by
  unfold TypeContext.baseChain
  rw [same.parents_length, same.climb]

theorem spread (steps : Nat) (seen frontier : List SourceTy) :
    other.spread steps seen frontier = context.spread steps seen frontier := by
  induction steps generalizing seen frontier with
  | zero => rfl
  | succ steps ih =>
      have sameAbove : other.supertypes = context.supertypes := funext same.supertypes
      simp only [TypeContext.spread, sameAbove, ih]

theorem withAncestors (types : List SourceTy) :
    other.withAncestors types = context.withAncestors types := by
  unfold TypeContext.withAncestors
  rw [same.parents_length, same.spread]

theorem isAssignable (source goal : SourceTy) :
    other.isAssignable source goal = context.isAssignable source goal := by
  unfold TypeContext.isAssignable TypeContext.ancestors
  rw [same.isValue, same.parents_length, same.spread]

theorem areRelated (left right : SourceTy) :
    other.areRelated left right = context.areRelated left right := by
  unfold TypeContext.areRelated
  rw [same.isAssignable, same.isAssignable]

/-- The meaning of a call does not depend on the order of the candidates. -/
theorem select {owner : SourceTy} {member : Name} {permuted : List Callee}
    (perm : permuted.Perm candidates)
    (selected : context.select owner member candidates args = .ok callee) :
    other.select owner member permuted args = .ok callee := by
  have sameAccepts : other.accepts = context.accepts := by
    funext params args
    unfold TypeContext.accepts
    simp only [same.isAssignable]
  have fitting := perm.filter fun callee => callee.params.length == args.length
  rw [select_eq_ok] at selected ⊢
  rw [sameAccepts]
  rcases selected with exact | ⟨noExact, only⟩
  · exact .inl (List.perm_singleton.mp (exact ▸ fitting.filter _))
  · exact .inr ⟨List.perm_nil.mp (noExact ▸ fitting.filter _),
      List.perm_singleton.mp (only ▸ fitting.filter _)⟩

end TypeContext.SameTypes

/-- Two contexts with the same declarations in different orders. -/
structure TypeContext.Shuffled (context other : TypeContext) : Prop where
  image : other.image = context.image
  entries : other.symbols.entries.Perm context.symbols.entries
  keyed : context.symbols.Keyed
  unique : context.symbols.UniqueNames

namespace TypeContext.Shuffled

variable {context other : TypeContext} (shuffled : context.Shuffled other)

include shuffled

theorem otherKeyed : other.symbols.Keyed :=
  shuffled.keyed.of_perm shuffled.entries

theorem otherUnique : other.symbols.UniqueNames where
  fields member present :=
    shuffled.unique.fields (shuffled.entries.mem_iff.mp member)
      (shuffled.entries.mem_iff.mp present)
  properties member present :=
    shuffled.unique.properties (shuffled.entries.mem_iff.mp member)
      (shuffled.entries.mem_iff.mp present)

theorem sameTypes : context.SameTypes other := by
  refine ⟨shuffled.image, fun name => ?_, List.Perm.length_eq ?_⟩
  · unfold Symbols.type?
    rw [KeyTable.get?_of_perm shuffled.keyed shuffled.entries]
  · unfold TypeContext.parents
    rw [shuffled.image]
    exact ((shuffled.entries.flatMap_right _).cons _).append_right _

/-! ## Members in context -/

theorem fieldNamed? (owner name : Name) :
    other.symbols.fieldNamed? owner name = context.symbols.fieldNamed? owner name := by
  refine Option.ext fun ⟨key, decl⟩ => ?_
  rw [Symbols.fieldNamed?_eq_some_iff shuffled.keyed shuffled.unique,
    Symbols.fieldNamed?_eq_some_iff shuffled.otherKeyed shuffled.otherUnique,
    shuffled.entries.mem_iff]

theorem propertyNamed? (owner name : Name) :
    other.symbols.propertyNamed? owner name = context.symbols.propertyNamed? owner name := by
  refine Option.ext fun ⟨key, decl⟩ => ?_
  rw [Symbols.propertyNamed?_eq_some_iff shuffled.keyed shuffled.unique,
    Symbols.propertyNamed?_eq_some_iff shuffled.otherKeyed shuffled.otherUnique,
    shuffled.entries.mem_iff]

theorem findField (owner : SourceTy) (name : Name) :
    other.findField owner name = context.findField owner name := by
  have sameOwn : other.ownField? name = context.ownField? name := by
    funext type
    unfold TypeContext.ownField?
    simp only [shuffled.fieldNamed?, shuffled.image]
  unfold TypeContext.findField
  rw [shuffled.sameTypes.baseChain, sameOwn]

theorem findProperty (owner : SourceTy) (name : Name) :
    other.findProperty owner name = context.findProperty owner name := by
  have sameOwn : other.ownProperty? name = context.ownProperty? name := by
    funext type
    unfold TypeContext.ownProperty?
    simp only [shuffled.propertyNamed?, shuffled.image]
  unfold TypeContext.findProperty
  rw [shuffled.sameTypes.baseChain, sameOwn]

theorem ownMethods (name : Name) (type : SourceTy) :
    (other.ownMethods name type).Perm (context.ownMethods name type) := by
  cases type with
  | declared owner => exact (shuffled.entries.filterMap _).map _
  | _ =>
      unfold TypeContext.ownMethods
      rw [shuffled.image]

/-- Within a type the parameters tell methods of a name apart, so which of them comes first
for some parameters does not depend on the order. -/
theorem find?_ownMethods (name : Name) (isInstance : Bool) (params : List SourceTy)
    (type : SourceTy) :
    ((other.ownMethods name type).filter fun callee => callee.isInstance == isInstance).find?
        (fun callee => callee.params == params) =
      ((context.ownMethods name type).filter fun callee => callee.isInstance == isInstance).find?
        fun callee => callee.params == params := by
  cases type with
  | declared owner =>
      have unique : ∀ first ∈ (context.ownMethods name (.declared owner)).filter
            (fun callee => callee.isInstance == isInstance),
          ∀ second ∈ (context.ownMethods name (.declared owner)).filter
            (fun callee => callee.isInstance == isInstance),
          first.params = second.params → first = second := by
        simp only [List.mem_filter, TypeContext.ownMethods, List.mem_map, beq_iff_eq, and_imp]
        rintro _ ⟨⟨key, decl⟩, firstNamed, rfl⟩ firstInstance _ ⟨⟨key', decl'⟩, secondNamed, rfl⟩
          secondInstance sameParams
        obtain ⟨first, firstOwner, firstName⟩ := Symbols.mem_methodsNamed firstNamed
        obtain ⟨second, secondOwner, secondName⟩ := Symbols.mem_methodsNamed secondNamed
        have sameKey : key = key' := by
          cases key
          cases key'
          simp_all
        subst sameKey
        have sameDecl := List.inj_on_of_nodup_map shuffled.keyed first second rfl
        simp only [Prod.mk.injEq, Declaration.method.injEq, true_and] at sameDecl
        rw [sameDecl]
      have perm := (shuffled.ownMethods name (.declared owner)).filter
        fun callee => callee.isInstance == isInstance
      refine Option.ext fun callee => ?_
      rw [find?_eq_some_of_unique unique, find?_eq_some_of_unique, perm.mem_iff]
      exact fun first isFirst second isSecond =>
        unique first (perm.mem_iff.mp isFirst) second (perm.mem_iff.mp isSecond)
  | _ =>
      unfold TypeContext.ownMethods
      rw [shuffled.image]

theorem methodCandidates (owner : SourceTy) (name : Name) (isInstance : Bool) :
    (other.methodCandidates owner name isInstance).Perm
      (context.methodCandidates owner name isInstance) := by
  unfold TypeContext.methodCandidates
  simp only [shuffled.sameTypes.baseChain, shuffled.sameTypes.withAncestors]
  refine dropHidden_perm fun params => ?_
  simp only [List.filter_flatMap, List.find?_flatMap, shuffled.find?_ownMethods]

theorem ctorCandidates (type : SourceTy) :
    (other.ctorCandidates type).Perm (context.ctorCandidates type) := by
  cases type with
  | declared owner => exact ((shuffled.entries.filterMap _).map _).map _
  | _ =>
      unfold TypeContext.ctorCandidates
      rw [shuffled.image]

end TypeContext.Shuffled

end ClassForge
