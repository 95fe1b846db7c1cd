import ClassForge.Proofs.Typing.BaseChains
import ClassForge.Proofs.Typing.Reordering

/-!
# The choice of an overload

The candidates of a call have different parameters, and of several methods with the same
parameters the one of the most derived type is a candidate.  What a call means does not depend on
the order of the candidates: it is the candidate with exactly the argument types as parameters, or
else the only one of the right number of parameters that accepts them.  So it depends on the
parameters of the candidates alone, and a method that overrides or implements a visible one adds
none.
-/

namespace ClassForge

namespace TypeContext

variable {context other : TypeContext} {owner type : SourceTy} {name member : Name}
variable {isInstance : Bool} {params args : List SourceTy} {candidates permuted : List Callee}
variable {callee : Callee}

/-! ## Candidates -/

/-- The types whose methods a call on a type can mean. -/
def visibleTypes (context : TypeContext) (owner : SourceTy) (isInstance : Bool) : List SourceTy :=
  if isInstance then context.withAncestors (context.baseChain owner) else context.baseChain owner

/-- The methods that a type itself declares and that a call can mean. -/
def callables (context : TypeContext) (name : Name) (isInstance : Bool) (type : SourceTy) :
    List Callee :=
  (context.ownMethods name type).filter fun callee => callee.isInstance == isInstance

/-- A type itself declares a method with some parameters that a call can mean. -/
def declares (context : TypeContext) (name : Name) (isInstance : Bool) (params : List SourceTy)
    (type : SourceTy) : Bool :=
  (context.callables name isInstance type).any fun callee => callee.params == params

theorem methodCandidates_eq :
    context.methodCandidates owner name isInstance =
      dropHidden ((context.visibleTypes owner isInstance).flatMap
        (context.callables name isInstance)) := by
  unfold methodCandidates
  dsimp only
  rw [List.filter_flatMap]
  rfl

theorem methodCandidates_nodup :
    ((context.methodCandidates owner name isInstance).map Callee.params).Nodup := by
  rw [methodCandidates_eq]
  exact dropHidden_nodup _

theorem visibleTypes_starts : context.baseChain owner <+: context.visibleTypes owner isInstance := by
  unfold visibleTypes
  split
  · exact spread_starts
  · exact List.prefix_rfl

theorem owner_of_mem_ownMethods (own : callee ∈ context.ownMethods name type) :
    callee.owner = type := by
  unfold ownMethods at own
  split at own
  all_goals
    obtain ⟨_, -, rfl⟩ := List.mem_map.mp own
    rfl

/-- Of several methods with the same parameters along the base chain, the one of the most derived
type is a candidate. -/
theorem exists_candidate_of_find? {first : SourceTy}
    (isFirst : (context.baseChain owner).find? (context.declares name isInstance params) =
      some first) :
    ∃ callee ∈ context.methodCandidates owner name isInstance,
      callee.params = params ∧ callee.owner = first ∧ callee ∈ context.ownMethods name first := by
  obtain ⟨declares, before, after, isChain, none⟩ := List.find?_eq_some_iff_append.mp isFirst
  obtain ⟨more, isVisible⟩ := @visibleTypes_starts context owner isInstance
  obtain ⟨method, isMethod, same⟩ := List.any_eq_true.mp declares
  have found : ((context.callables name isInstance first).find? fun other =>
      other.params == params).isSome = true :=
    List.find?_isSome.mpr ⟨method, isMethod, same⟩
  obtain ⟨callee, isCallee⟩ := Option.isSome_iff_exists.mp found
  have isOwn := List.mem_of_mem_filter (List.mem_of_find?_eq_some isCallee)
  have isParams : callee.params = params := by simpa using List.find?_some isCallee
  refine ⟨callee, ?_, isParams, owner_of_mem_ownMethods isOwn, isOwn⟩
  have noneBefore : (before.flatMap (context.callables name isInstance)).find?
      (fun other => other.params == params) = .none := by
    refine List.find?_eq_none.mpr fun other isOther found => ?_
    obtain ⟨type, isType, own⟩ := List.mem_flatMap.mp isOther
    have declared : context.declares name isInstance params type = true :=
      List.any_eq_true.mpr ⟨other, own, found⟩
    simpa [declared] using none type isType
  rw [methodCandidates_eq, mem_dropHidden, isParams, ← isVisible, isChain]
  simp [List.find?_append, noneBefore, isCallee]

/-- All that is visible on a type that is visible is visible. -/
theorem visibleTypes_subset (visible : type ∈ context.visibleTypes owner isInstance) :
    context.visibleTypes type isInstance ⊆ context.visibleTypes owner isInstance := by
  unfold visibleTypes at *
  split at visible
  · rename_i isInstance
    rw [if_pos isInstance, if_pos isInstance]
    have upwards : ∀ lower ∈ context.withAncestors (context.baseChain owner),
        ∀ upper ∈ context.supertypes lower,
          upper ∈ context.withAncestors (context.baseChain owner) :=
      fun lower isLower upper below => withAncestors_closed isLower below
    exact withAncestors_all upwards (baseChain_all upwards visible)
  · rename_i isStatic
    rw [if_neg isStatic, if_neg isStatic]
    exact baseChain_subset visible

/-! ## What a call means -/

/-- Every argument of a call can be assigned to its parameter. -/
def Suits (context : TypeContext) (args params : List SourceTy) : Prop :=
  List.Forall₂ (fun arg param => context.isAssignable arg param = true) args params

theorem accepts_iff (sameLength : params.length = args.length) :
    context.accepts params args = true ↔ context.Suits args params := by
  induction params generalizing args with
  | nil =>
      obtain rfl := List.eq_nil_of_length_eq_zero sameLength.symm
      exact iff_of_true rfl .nil
  | cons param params ih =>
      obtain ⟨arg, args, rfl⟩ := List.exists_cons_of_length_eq_add_one sameLength.symm
      rw [Suits, List.forall₂_cons, ← Suits, ← ih (Nat.succ.inj sameLength), accepts,
        List.zip_cons_cons, List.all_cons, Bool.and_eq_true]
      rfl

theorem SameTypes.refl (context : TypeContext) : context.SameTypes context :=
  ⟨rfl, fun _ => rfl, rfl⟩

/-- What a call means does not depend on the order of the candidates. -/
theorem select_perm (perm : permuted.Perm candidates) :
    context.select owner member permuted args = .ok callee ↔
      context.select owner member candidates args = .ok callee :=
  ⟨(SameTypes.refl context).select perm.symm, (SameTypes.refl context).select perm⟩

/-- Just one entry of a list without duplicates passes a test. -/
theorem filter_eq_singleton_iff {α : Type} {items : List α} {item : α} {test : α → Bool}
    (distinct : items.Nodup) :
    items.filter test = [item] ↔
      item ∈ items ∧ test item = true ∧ ∀ other ∈ items, test other = true → other = item := by
  constructor
  · intro only
    have member : item ∈ items.filter test := only ▸ List.mem_singleton_self item
    refine ⟨List.mem_of_mem_filter member, (List.mem_filter.mp member).2, fun other isOther passes => ?_⟩
    have also : other ∈ items.filter test := List.mem_filter.mpr ⟨isOther, passes⟩
    rw [only] at also
    exact List.mem_singleton.mp also
  · rintro ⟨member, passes, unique⟩
    refine List.perm_singleton.mp ((List.perm_ext_iff_of_nodup (distinct.filter _)
      (List.nodup_singleton _)).mpr fun other => ?_)
    rw [List.mem_filter, List.mem_singleton]
    constructor
    · exact fun ⟨isOther, also⟩ => unique other isOther also
    · rintro rfl
      exact ⟨member, passes⟩

/-- A call means the candidate with exactly the argument types as parameters, or else the only
candidate of the right number of parameters that accepts the arguments. -/
theorem select_eq_ok_of_nodup (distinct : (candidates.map Callee.params).Nodup) :
    context.select owner member candidates args = .ok callee ↔
      callee ∈ candidates ∧ (callee.params = args ∨
        args ∉ candidates.map Callee.params ∧ context.Suits args callee.params ∧
          ∀ other ∈ candidates, context.Suits args other.params → other = callee) := by
  have unique : ∀ first ∈ candidates, ∀ second ∈ candidates, first.params = second.params →
      first = second := fun _ isFirst _ isSecond =>
    List.inj_on_of_nodup_map distinct isFirst isSecond
  have isExact : ∀ other : Callee, (other.params == args && other.params.length == args.length) =
      true ↔ other.params = args := by
    intro other
    rw [Bool.and_eq_true, beq_iff_eq, beq_iff_eq]
    exact and_iff_left_of_imp (congrArg List.length)
  have isSuited : ∀ other : Callee, (context.accepts other.params args &&
      other.params.length == args.length) = true ↔ context.Suits args other.params := by
    intro other
    rw [Bool.and_eq_true, beq_iff_eq]
    constructor
    · exact fun ⟨accepted, sameLength⟩ => (accepts_iff sameLength).mp accepted
    · intro suits
      have sameLength := (List.Forall₂.length_eq suits).symm
      exact ⟨(accepts_iff sameLength).mpr suits, sameLength⟩
  rw [select_eq_ok]
  dsimp only
  rw [List.filter_filter, List.filter_filter, filter_eq_singleton_iff (.of_map _ distinct),
    filter_eq_singleton_iff (.of_map _ distinct), List.filter_eq_nil_iff]
  simp only [isExact, isSuited]
  constructor
  · rintro (⟨member, same, -⟩ | ⟨none, member, suits, only⟩)
    · exact ⟨member, .inl same⟩
    · refine ⟨member, .inr ⟨fun listed => ?_, suits, only⟩⟩
      obtain ⟨other, isOther, same⟩ := List.mem_map.mp listed
      exact none other isOther same
  · rintro ⟨member, same | ⟨none, suits, only⟩⟩
    · exact .inl ⟨member, same, fun other isOther also =>
        unique other isOther callee member (also.trans same.symm)⟩
    · exact .inr ⟨fun other isOther same => none (List.mem_map.mpr ⟨other, isOther, same⟩), member,
        suits, only⟩

/-- Some candidate with some parameters is what a call means: the parameters are exactly the
argument types, or no candidate has those and all others do not accept the arguments. -/
theorem exists_select_iff (distinct : (candidates.map Callee.params).Nodup) :
    (∃ callee, context.select owner member candidates args = .ok callee ∧ callee.params = params) ↔
      params ∈ candidates.map Callee.params ∧ (params = args ∨
        args ∉ candidates.map Callee.params ∧ context.Suits args params ∧
          ∀ other ∈ candidates.map Callee.params, context.Suits args other → other = params) := by
  constructor
  · rintro ⟨callee, selected, rfl⟩
    obtain ⟨isCandidate, means⟩ := (select_eq_ok_of_nodup distinct).mp selected
    refine ⟨List.mem_map_of_mem isCandidate, means.imp_right ?_⟩
    rintro ⟨none, suits, only⟩
    refine ⟨none, suits, fun other isOther alsoSuits => ?_⟩
    obtain ⟨another, isAnother, rfl⟩ := List.mem_map.mp isOther
    rw [only another isAnother alsoSuits]
  · rintro ⟨listed, means⟩
    obtain ⟨callee, isCandidate, rfl⟩ := List.mem_map.mp listed
    refine ⟨callee, (select_eq_ok_of_nodup distinct).mpr ⟨isCandidate, means.imp_right ?_⟩, rfl⟩
    rintro ⟨none, suits, only⟩
    refine ⟨none, suits, fun other isOther alsoSuits => ?_⟩
    exact List.inj_on_of_nodup_map distinct isOther isCandidate
      (only other.params (List.mem_map_of_mem isOther) alsoSuits)

/-! ## Overriding -/

/-- The parameters of the candidates are those that visible types declare. -/
theorem mem_params_methodCandidates :
    params ∈ (context.methodCandidates owner name isInstance).map Callee.params ↔
      ∃ type ∈ context.visibleTypes owner isInstance,
        context.declares name isInstance params type = true := by
  rw [methodCandidates_eq, List.mem_map]
  constructor
  · rintro ⟨callee, kept, rfl⟩
    obtain ⟨type, visible, own⟩ := List.mem_flatMap.mp (mem_of_mem_dropHidden kept)
    exact ⟨type, visible, List.any_eq_true.mpr ⟨callee, own, beq_self_eq_true _⟩⟩
  · rintro ⟨type, visible, declared⟩
    obtain ⟨callee, own, same⟩ := List.any_eq_true.mp declared
    have found : (((context.visibleTypes owner isInstance).flatMap
        (context.callables name isInstance)).find? fun other => other.params == params).isSome =
          true :=
      List.find?_isSome.mpr ⟨callee, List.mem_flatMap.mpr ⟨type, visible, own⟩, same⟩
    obtain ⟨first, isFirst⟩ := Option.isSome_iff_exists.mp found
    have isParams : first.params = params := by simpa using List.find?_some isFirst
    exact ⟨first, mem_dropHidden.mpr (isParams ▸ isFirst), isParams⟩

variable {key : MethodKey} {decl : MethodDecl} {symbols extended : Symbols} {image : Image}

/-- A further method leaves the types as they are. -/
theorem sameTypes_declare
    (declared : symbols.declare (.method key) (.method decl) = .ok extended) :
    SameTypes ⟨symbols, image⟩ ⟨extended, image⟩ := by
  have isExtended := Symbols.declare_entries declared
  refine ⟨rfl, fun other => ?_, ?_⟩
  · have differs : (Key.type other == Key.method key) = false := by simp
    simp [Symbols.type?, KeyTable.get?, isExtended, List.lookup_append, List.lookup_cons, differs]
  · simp [parents, isExtended]

theorem SameTypes.visibleTypes (same : context.SameTypes other) :
    other.visibleTypes owner isInstance = context.visibleTypes owner isInstance := by
  unfold TypeContext.visibleTypes
  rw [same.baseChain, same.withAncestors]

theorem SameTypes.suits (same : context.SameTypes other) :
    other.Suits args params ↔ context.Suits args params := by
  unfold Suits
  simp only [same.isAssignable]

section

variable (declared : symbols.declare (.method key) (.method decl) = .ok extended)
include declared

/-- What a type declares after a further method was added. -/
theorem declares_declare :
    TypeContext.declares ⟨extended, image⟩ name isInstance params type = true ↔
      TypeContext.declares ⟨symbols, image⟩ name isInstance params type = true ∨
        (type = .declared key.owner ∧ key.name = name ∧ key.isInstance = isInstance ∧
          key.params = params) := by
  have isExtended := Symbols.declare_entries declared
  unfold TypeContext.declares callables
  cases type with
  | declared owner =>
      simp only [ownMethods, Symbols.methodsNamed, isExtended, List.filterMap_append,
        List.map_append, List.filter_append, List.any_append, Bool.or_eq_true]
      refine or_congr Iff.rfl ?_
      by_cases named : key.owner = owner ∧ key.name = name
      · simp [named.1, named.2]
      · simp only [List.filterMap_cons, if_neg named, List.filterMap_nil, List.map_nil,
          List.filter_nil, List.any_nil, Bool.false_eq_true, Ty.declared.injEq, false_iff]
        rintro ⟨isOwner, isName, -⟩
        exact named ⟨isOwner.symm, isName⟩
  | _ => simp [ownMethods]

/-- The parameters that can be meant by a call stay the same when a visible method is overridden or
implemented. -/
theorem params_methodCandidates_declare
    (visible : key.params ∈ (methodCandidates ⟨symbols, image⟩ (.declared key.owner) key.name
      key.isInstance).map Callee.params) :
    params ∈ (methodCandidates ⟨extended, image⟩ owner name isInstance).map Callee.params ↔
      params ∈ (methodCandidates ⟨symbols, image⟩ owner name isInstance).map Callee.params := by
  have same : SameTypes ⟨symbols, image⟩ ⟨extended, image⟩ := sameTypes_declare declared
  rw [mem_params_methodCandidates, mem_params_methodCandidates, same.visibleTypes]
  simp only [declares_declare declared]
  constructor
  · rintro ⟨type, isVisible, declares | ⟨rfl, rfl, rfl, rfl⟩⟩
    · exact ⟨type, isVisible, declares⟩
    · obtain ⟨above, isAbove, declares⟩ := mem_params_methodCandidates.mp visible
      exact ⟨above, visibleTypes_subset isVisible isAbove, declares⟩
  · rintro ⟨type, isVisible, declares⟩
    exact ⟨type, isVisible, .inl declares⟩

/-- A call that was accepted is accepted after a visible method was overridden or implemented, and
means a method with the same parameters. -/
theorem select_declare
    (visible : key.params ∈ (methodCandidates ⟨symbols, image⟩ (.declared key.owner) key.name
      key.isInstance).map Callee.params)
    (selected : select ⟨symbols, image⟩ owner member
      (methodCandidates ⟨symbols, image⟩ owner name isInstance) args = .ok callee) :
    ∃ later, select ⟨extended, image⟩ owner member
        (methodCandidates ⟨extended, image⟩ owner name isInstance) args = .ok later ∧
      later.params = callee.params := by
  have same : SameTypes ⟨symbols, image⟩ ⟨extended, image⟩ := sameTypes_declare declared
  have means := (exists_select_iff methodCandidates_nodup).mp ⟨callee, selected, rfl⟩
  refine (exists_select_iff methodCandidates_nodup).mpr ?_
  simpa only [params_methodCandidates_declare declared visible, same.suits] using means

end

/-- How a call is resolved.  The candidates have different parameters, and of several methods along
the base chain with the same parameters the one of the most derived type is a candidate.  In
whatever order the candidates are given, the call means the one with exactly the argument types as
parameters, or else the only one of the right number of parameters that accepts the arguments.  So
a method that overrides or implements a visible one never makes a call ambiguous that was
accepted. -/
theorem overloads_resolved (context : TypeContext) (owner : SourceTy) (name : Name)
    (isInstance : Bool) :
    let candidates := context.methodCandidates owner name isInstance
    (candidates.map Callee.params).Nodup ∧
    (∀ params first,
      (context.baseChain owner).find? (context.declares name isInstance params) = some first →
        ∃ callee ∈ candidates, callee.params = params ∧ callee.owner = first ∧
          callee ∈ context.ownMethods name first) ∧
    (∀ permuted : List Callee, permuted.Perm candidates → ∀ member args callee,
      (context.select owner member permuted args = .ok callee ↔
        context.select owner member candidates args = .ok callee) ∧
      (context.select owner member permuted args = .ok callee ↔
        callee ∈ candidates ∧ (callee.params = args ∨
          args ∉ candidates.map Callee.params ∧ context.Suits args callee.params ∧
            ∀ other ∈ candidates, context.Suits args other.params → other = callee))) ∧
    ∀ key decl extended,
      context.symbols.declare (.method key) (.method decl) = .ok extended →
      key.params ∈ (context.methodCandidates (.declared key.owner) key.name
        key.isInstance).map Callee.params →
      let later : TypeContext := { context with symbols := extended }
      ∀ member args callee, context.select owner member candidates args = .ok callee →
        ∃ meant, later.select owner member (later.methodCandidates owner name isInstance) args =
            .ok meant ∧
          meant.params = callee.params := by
  intro candidates
  have distinct : (candidates.map Callee.params).Nodup := methodCandidates_nodup
  refine ⟨distinct, fun params first isFirst => exists_candidate_of_find? isFirst,
    fun permuted perm member args callee => ⟨select_perm perm, ?_⟩,
    fun key decl extended declared visible => ?_⟩
  · rw [select_perm perm, select_eq_ok_of_nodup distinct]
  · intro later member args callee selected
    exact select_declare declared visible selected

/-- A class with two methods of a name, and one that derives from it. -/
def growing : Symbols :=
  let shape : TypeDecl := { attrs := .publicClass }
  let square : TypeDecl := { attrs := .publicClass, base := some (.declared "Shape") }
  let grow : MethodDecl := { attrs := .publicVirtual, ret := .void }
  ⟨[(.type "Shape", .type shape), (.type "Square", .type square),
    (.method ⟨"Shape", "Grow", true, [.object]⟩, .method grow),
    (.method ⟨"Shape", "Grow", true, [.int32]⟩, .method grow)]⟩

theorem overloads_resolved_growing :
    let override : MethodKey := ⟨"Square", "Grow", true, [.object]⟩
    ∃ extended, growing.declare (.method override) (.method { attrs := .publicVirtual, ret := .void }) =
        .ok extended ∧
      let later : TypeContext := { symbols := extended, image := .library }
      ∃ meant, later.select (.declared "Square") "Grow"
          (later.methodCandidates (.declared "Square") "Grow" true) [.string] = .ok meant ∧
        meant.params = [.object] := by
  intro override
  obtain ⟨-, -, -, overriding⟩ :=
    overloads_resolved ⟨growing, .library⟩ (.declared "Square") "Grow" true
  have visible : [Ty.object] ∈ (methodCandidates ⟨growing, .library⟩ (.declared "Square") "Grow"
      true).map Callee.params := by
    decide +kernel
  have accepted : ((select ⟨growing, .library⟩ (.declared "Square") "Grow"
      (methodCandidates ⟨growing, .library⟩ (.declared "Square") "Grow" true) [.string]).toOption.any
        fun callee => callee.params == [.object]) = true := by
    decide +kernel
  obtain ⟨callee, selected, isParams⟩ := exists_ok_of_any accepted
  refine ⟨_, rfl, ?_⟩
  obtain ⟨meant, means, same⟩ := overriding override _ _ rfl visible "Grow" _ _ selected
  exact ⟨meant, means, same.trans (beq_iff_eq.mp isParams)⟩

end TypeContext

end ClassForge
