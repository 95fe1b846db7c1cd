import ClassForge.Proofs.Usage.Usage

/-!
# Free variables of the parts of an expression

The uses of an expression are in order, and what an operand uses is used by the
whole, with the same marks.
-/

namespace ClassForge

/-! ## Induction over subexpressions -/

theorem sizeOf_lt_of_mem_map_snd
    {α β : Type}
    [SizeOf α]
    [SizeOf β]
    {clauses : List (α × β)}
    {child : β}
    (member : child ∈ clauses.map (·.2)) :
    sizeOf child < sizeOf clauses := by
  obtain ⟨⟨label, expr⟩, present, rfl⟩ := List.mem_map.mp member
  have smaller := List.sizeOf_lt_of_mem present
  simp only [Prod.mk.sizeOf_spec] at smaller
  dsimp only
  omega

namespace Expr

/-- A direct subexpression is smaller than the whole. -/
theorem sizeOf_lt_of_mem_children {expr child : Expr}
    (member : child ∈ expr.children) : sizeOf child < sizeOf expr := by
  have inList : ∀ {items : List Expr}, child ∈ items → sizeOf child < sizeOf items :=
    fun present => List.sizeOf_lt_of_mem present
  have inClauses : ∀ {α : Type} [SizeOf α] {clauses : List (α × Expr)},
      child ∈ clauses.map (·.2) → sizeOf child < sizeOf clauses :=
    fun present => sizeOf_lt_of_mem_map_snd present
  cases expr <;>
    simp only [children, List.mem_append, List.mem_cons, List.not_mem_nil, or_false]
      at member
  case seq | logic | staticCall | new =>
    have := inList member
    simp only [seq.sizeOf_spec, logic.sizeOf_spec, staticCall.sizeOf_spec, new.sizeOf_spec]
    omega
  case invoke | call =>
    rcases member.imp_right inList with rfl | smaller
    all_goals simp only [invoke.sizeOf_spec, call.sizeOf_spec]; omega
  case letPar | letSeq | letRec | loop | pin =>
    rcases member.imp_left inClauses with smaller | rfl
    all_goals
      simp only [letPar.sizeOf_spec, letSeq.sizeOf_spec, letRec.sizeOf_spec, loop.sizeOf_spec,
        pin.sizeOf_spec]
      omega
  case tryCatch =>
    rcases member.imp_right inClauses with rfl | smaller
    all_goals simp only [tryCatch.sizeOf_spec]; omega
  case switch | tryFinally =>
    rcases member.imp_left (Or.imp_right inClauses) with (rfl | smaller) | rfl
    all_goals simp only [switch.sizeOf_spec, tryFinally.sizeOf_spec]; omega
  all_goals
    rcases member with rfl | rfl | rfl <;>
      simp only [set.sizeOf_spec, when.sizeOf_spec, cond.sizeOf_spec, while.sizeOf_spec,
        lambda.sizeOf_spec, unary.sizeOf_spec, binary.sizeOf_spec, ternary.sizeOf_spec] <;> omega

/-- A property of all expressions follows from its passing from the direct
subexpressions to the whole. -/
theorem childInduction
    {motive : Expr → Prop}
    (step : ∀ expr, (∀ child ∈ expr.children, motive child) → motive expr)
    (expr : Expr) : motive expr :=
  step expr fun child _ => childInduction step child
termination_by sizeOf expr
decreasing_by exact sizeOf_lt_of_mem_children ‹_›

/-! ## Uses of lists of parts -/

theorem usages_eq_map (items : List Expr) : usages items = items.map usage := by
  induction items with
  | nil => rfl
  | cons item items ih => rw [usages, ih, List.map_cons]

theorem armUsages_eq_map (arms : List (List UInt32 × Expr)) :
    armUsages arms = (arms.map (·.2)).map usage := by
  induction arms with
  | nil => rfl
  | cons arm arms ih => rw [armUsages, ih, List.map_cons, List.map_cons]

theorem namedUsages_eq_map (clauses : List (Name × Expr)) :
    namedUsages clauses = clauses.map fun clause => (clause.1, clause.2.usage) := by
  induction clauses with
  | nil => rfl
  | cons clause clauses ih => rw [namedUsages, ih, List.map_cons]

theorem typedUsages_eq_map (clauses : List (Param × Expr)) :
    typedUsages clauses =
      clauses.map fun clause => (clause.1.name, clause.2.usage) := by
  induction clauses with
  | nil => rfl
  | cons clause clauses ih => rw [typedUsages, ih, List.map_cons]

theorem map_namedUsages (clauses : List (Name × Expr)) :
    (namedUsages clauses).map (·.2) = (clauses.map (·.2)).map usage := by
  simp [namedUsages_eq_map, Function.comp_def]

theorem map_typedUsages (clauses : List (Param × Expr)) :
    (typedUsages clauses).map (·.2) = (clauses.map (·.2)).map usage := by
  simp [typedUsages_eq_map, Function.comp_def]

theorem names_namedUsages (clauses : List (Name × Expr)) :
    (namedUsages clauses).map (·.1) = clauses.map (·.1) := by
  simp [namedUsages_eq_map, Function.comp_def]

theorem names_typedUsages (clauses : List (Param × Expr)) :
    (typedUsages clauses).map (·.1) = clauses.map (·.1.name) := by
  simp [typedUsages_eq_map, Function.comp_def]

/-! ## Order -/

/-- The uses of an expression are in ascending order of names. -/
theorem sorted_usage (expr : Expr) : expr.usage.Sorted := by
  induction expr using childInduction with
  | step expr ih =>
      cases expr <;> simp only [usage]
      case literal => exact Usage.sorted_empty
      case var => exact Usage.sorted_read _
      case set name value => exact (ih value (by simp [children])).union _
      case letPar => exact Usage.sorted_parallel _ _
      case letSeq clauses body =>
        refine Usage.sorted_sequential ?_ (ih body (by simp [children]))
        intro clause member
        rw [namedUsages_eq_map, List.mem_map] at member
        obtain ⟨source, present, rfl⟩ := member
        refine ih _ ?_
        simp only [children, List.mem_append, List.mem_map]
        exact Or.inl ⟨source, present, rfl⟩
      case letRec => exact Usage.sorted_recursive _ _
      case loop => exact (Usage.sorted_unionAll _).union _
      case lambda id params body => exact (ih body (by simp [children])).moved _
      case staticField => exact Usage.sorted_empty
      case staticProperty => exact Usage.sorted_empty
      case tryCatch id body catches => exact (ih body (by simp [children])).guarded _ _
      case tryFinally id body catches final =>
        exact (ih body (by simp [children])).guarded _ _
      case pin => exact (Usage.sorted_unionAll _).union _
      all_goals exact Usage.sorted_unionAll _

/-- The uses of a member of a list are within those of the list. -/
theorem usage_within_unionAll {items : List Expr} {item : Expr}
    (member : item ∈ items) :
    item.usage.Within (Usage.unionAll (items.map usage)) := by
  refine Usage.within_unionAll ?_ (List.mem_map_of_mem member)
  intro usage present
  obtain ⟨other, -, rfl⟩ := List.mem_map.mp present
  exact sorted_usage other

/-- The forms whose node only acts on the values of its children. -/
def isOperation : Expr → Bool
  | unary .. | binary .. | ternary .. | staticField .. | staticProperty ..
  | staticCall .. | call .. | new .. => true
  | _ => false

/-- The kinds of nodes that combine the uses of their children and bind
nothing. -/
def isPlain : Expr → Bool
  | seq .. | logic .. | when .. | cond .. | .while .. | switch .. | invoke .. => true
  | expr => expr.isOperation

/-- A node that binds nothing uses what its children use. -/
theorem usage_of_isPlain {expr : Expr} (plain : expr.isPlain = true) :
    expr.usage = .unionAll (expr.children.map usage) := by
  cases expr <;> simp_all [isPlain, isOperation, usage, children, usages_eq_map,
    armUsages_eq_map, Usage.unionAll]

end Expr

end ClassForge
