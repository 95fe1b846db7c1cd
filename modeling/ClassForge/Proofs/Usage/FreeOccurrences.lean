import ClassForge.Proofs.Usage.FreeVariables
import Mathlib.Logic.Basic

/-!
# Free occurrences

A name occurs free in an expression where the expression reads or assigns it
and no form on the way down binds it.  What a form binds, and around which of
its parts a boundary lies, is read off one table, `Expr.parts`; the uses that
the analysis computes are exact for the occurrences along that table.
-/

namespace ClassForge

/-! ## The scope of each part -/

/-- A direct subexpression in its position. -/
structure Part where
  expr : Expr
  /-- Names that the form binds in this part. -/
  bound : List Name := []
  /-- Whether the part lies inside a boundary that the form puts up. -/
  inside : Bool := false

/-- The part with a boundary around it. -/
def Part.enclosed (part : Part) : Part :=
  { part with inside := true }

namespace Expr

/-- Parts of a form whose clauses each bind their name in all that follows. -/
def sequentialParts : List (Name × Expr) → Expr → List Part
  | [], body => [{ expr := body }]
  | (name, init) :: clauses, body =>
      { expr := init } :: (sequentialParts clauses body).map fun part =>
        { part with bound := name :: part.bound }

/-- The body and the handlers of a `try`; each handler binds its own exception. -/
def guardedParts (body : Expr) (catches : List (Param × Expr)) : List Part :=
  { expr := body } :: catches.map fun handler =>
    { expr := handler.2, bound := [handler.1.name] }

/-- The parts of an expression with what is bound in each. -/
def parts : Expr → List Part
  | letPar clauses body =>
      clauses.map (fun clause => { expr := clause.2 }) ++
        [{ expr := body, bound := clauses.map (·.1) }]
  | letSeq clauses body => sequentialParts clauses body
  | letRec clauses body =>
      (clauses.map (·.2) ++ [body]).map fun expr =>
        { expr := expr, bound := clauses.map (·.1.name) }
  | loop _ name vars _ body =>
      vars.map (fun var => { expr := var.2 }) ++
        [{ expr := body, bound := name :: vars.map (·.1.name), inside := true }]
  | lambda _ params body =>
      [{ expr := body, bound := params.map Param.name, inside := true }]
  | tryCatch _ body catches => (guardedParts body catches).map Part.enclosed
  | tryFinally _ body catches final =>
      (guardedParts body catches ++ [({ expr := final } : Part)]).map Part.enclosed
  | pin _ arrays body =>
      arrays.map (fun array => { expr := array.2 }) ++
        [{ expr := body, bound := arrays.map (·.1), inside := true }]
  | expr => expr.children.map fun child => { expr := child }

/-- `expr.Occurs name assigns crosses`: the name has a free occurrence in the
expression, which is an assignment or a read, and which lies inside a boundary
of the expression or not. -/
inductive Occurs (name : Name) : Expr → Bool → Bool → Prop where
  | read : Occurs name (var name) false false
  | assignment (value : Expr) : Occurs name (set name value) true false
  | inPart {whole : Expr} {part : Part} {assigns crosses : Bool}
      (member : part ∈ whole.parts)
      (unbound : name ∉ part.bound)
      (inner : Occurs name part.expr assigns crosses) :
      Occurs name whole assigns (part.inside || crosses)

end Expr

/-- The occurrences of a name in a part, as the form around it has them. -/
def Part.Occurs (part : Part) (name : Name) (assigns crosses : Bool) : Prop :=
  name ∉ part.bound ∧
    ∃ inner, part.expr.Occurs name assigns inner ∧ crosses = (part.inside || inner)

namespace Part

variable {name : Name} {assigns crosses : Bool}

/-- A part outside any boundary of the form has the occurrences of a name that
is not bound there. -/
@[simp]
theorem occurs_outside (expr : Expr) (bound : List Name) :
    ({ expr := expr, bound := bound } : Part).Occurs name assigns crosses ↔
      name ∉ bound ∧ expr.Occurs name assigns crosses := by
  simp only [Part.Occurs, Bool.false_or, exists_eq_right']

/-- Inside a boundary every occurrence lies inside it. -/
@[simp]
theorem occurs_inside (expr : Expr) (bound : List Name) :
    ({ expr := expr, bound := bound, inside := true } : Part).Occurs name assigns crosses ↔
      name ∉ bound ∧ crosses = true ∧ ∃ inner, expr.Occurs name assigns inner := by
  simp only [Part.Occurs, Bool.true_or, and_comm, exists_and_left]

/-- One more bound name takes away the occurrences of that name. -/
theorem occurs_under (part : Part) (other : Name) :
    { part with bound := other :: part.bound }.Occurs name assigns crosses ↔
      name ≠ other ∧ part.Occurs name assigns crosses := by
  simp only [Part.Occurs, List.mem_cons, not_or, and_assoc, ne_eq]

/-- The occurrences of a name in some of the parts. -/
def Among (name : Name) (parts : List Part) (assigns crosses : Bool) : Prop :=
  ∃ part ∈ parts, part.Occurs name assigns crosses

@[simp]
theorem among_nil : Among name [] assigns crosses ↔ False := by
  simp [Among]

@[simp]
theorem among_cons (part : Part) (parts : List Part) :
    Among name (part :: parts) assigns crosses ↔
      part.Occurs name assigns crosses ∨ Among name parts assigns crosses := by
  simp [Among]

@[simp]
theorem among_append (before after : List Part) :
    Among name (before ++ after) assigns crosses ↔
      Among name before assigns crosses ∨ Among name after assigns crosses := by
  simp only [Among, List.mem_append, or_and_right, exists_or]

@[simp]
theorem among_map {α : Type} (items : List α) (part : α → Part) :
    Among name (items.map part) assigns crosses ↔
      ∃ item ∈ items, (part item).Occurs name assigns crosses := by
  simp only [Among, List.mem_map, exists_exists_and_eq_and]

/-- With a boundary around all parts, every occurrence lies inside it. -/
@[simp]
theorem among_enclosed (parts : List Part) :
    Among name (parts.map enclosed) assigns crosses ↔
      crosses = true ∧ ∃ inner, Among name parts assigns inner := by
  rw [among_map]
  constructor
  · rintro ⟨part, member, unbound, inner, occurs, rfl⟩
    exact ⟨rfl, _, part, member, unbound, inner, occurs, rfl⟩
  · rintro ⟨rfl, -, part, member, unbound, inner, occurs, -⟩
    exact ⟨part, member, unbound, inner, occurs, rfl⟩

end Part

namespace Usage

/-! ## Exact uses -/

/-- The name is marked as mutated. -/
def isMutated (usage : Usage) (name : Name) : Bool :=
  (usage.get? name).any VarUse.mutated

theorem isMutated_union {left right : Usage} (leftSorted : left.Sorted) (rightSorted : right.Sorted)
    (name : Name) :
    (left.union right).isMutated name =
      (left.isMutated name || right.isMutated name) := by
  rw [isMutated, get?_union leftSorted rightSorted,
    Option.any_merge (fun _ _ => rfl)]
  rfl

theorem isMutated_without (usage : Usage) (bound : List Name) (name : Name) :
    (usage.without bound).isMutated name =
      (!bound.contains name && usage.isMutated name) := by
  rw [isMutated, get?_without]
  by_cases isBound : name ∈ bound <;> simp [isBound, isMutated]

theorem isMutated_captureAll (usage : Usage) (name : Name) :
    usage.captureAll.isMutated name = usage.isMutated name := by
  rw [isMutated, get?_captureAll, Option.any_map]
  rfl

/-- The uses say of the name what its occurrences are: `occurs assigns crosses`
holds for the kinds of occurrence that there are. -/
structure Records (usage : Usage) (name : Name) (occurs : Bool → Bool → Prop) :
    Prop where
  sorted : usage.Sorted
  free : name ∈ usage.names ↔ ∃ assigns crosses, occurs assigns crosses
  mutated : usage.isMutated name = true ↔ ∃ crosses, occurs true crosses
  captured : usage.isCaptured name = true ↔ ∃ assigns, occurs assigns true

namespace Records

variable {name : Name} {occurs before after : Bool → Bool → Prop}
variable {usage : Usage}

theorem congr (records : usage.Records name before)
    (same : ∀ assigns crosses, before assigns crosses ↔ after assigns crosses) :
    usage.Records name after where
  sorted := records.sorted
  free := by simp only [records.free, same]
  mutated := by simp only [records.mutated, same]
  captured := by simp only [records.captured, same]

theorem of_eq {other : Usage} (records : usage.Records name occurs) (same : other = usage) :
    other.Records name occurs :=
  same ▸ records

theorem empty : Usage.empty.Records name fun _ _ => False where
  sorted := sorted_empty
  free := by simp
  mutated := by simp [isMutated, get?, Usage.empty]
  captured := by simp [isCaptured, get?, Usage.empty]

theorem read (other : Name) :
    (Usage.read other).Records name fun assigns crosses =>
      name = other ∧ assigns = false ∧ crosses = false where
  sorted := sorted_read other
  free := by simp
  mutated := by simp [isMutated, get?, Usage.read, lookup_cons_ite, apply_ite]
  captured := by simp [isCaptured, get?, Usage.read, lookup_cons_ite, apply_ite]

theorem assigned (other : Name) :
    (Usage.assigned other).Records name fun assigns crosses =>
      name = other ∧ assigns = true ∧ crosses = false where
  sorted := sorted_assigned other
  free := by simp
  mutated := by simp [isMutated, get?, Usage.assigned, lookup_cons_ite, apply_ite]
  captured := by simp [isCaptured, get?, Usage.assigned, lookup_cons_ite, apply_ite]

theorem union {left right : Usage} (first : left.Records name before)
    (second : right.Records name after) :
    (left.union right).Records name fun assigns crosses =>
      before assigns crosses ∨ after assigns crosses where
  sorted := first.sorted.union right
  free := by simp only [mem_names_union, first.free, second.free, exists_or]
  mutated := by
    simp only [isMutated_union first.sorted second.sorted, Bool.or_eq_true,
      first.mutated, second.mutated, exists_or]
  captured := by
    simp only [isCaptured_union first.sorted second.sorted, Bool.or_eq_true,
      first.captured, second.captured, exists_or]

theorem foldl_union {α : Type} {items : List α} {use : α → Usage}
    {occursIn : α → Bool → Bool → Prop}
    (each : ∀ item ∈ items, (use item).Records name (occursIn item))
    (start : usage.Records name before) :
    (items.foldl (fun usage item => usage.union (use item)) usage).Records name
      fun assigns crosses =>
        before assigns crosses ∨ ∃ item ∈ items, occursIn item assigns crosses := by
  induction items generalizing usage before with
  | nil => exact start.congr (by simp)
  | cons item items ih =>
      have next := start.union (each item List.mem_cons_self)
      have rest := ih (List.forall_mem_cons.mp each).2 next
      exact rest.congr (by simp [or_assoc])

theorem unionAll {α : Type} {items : List α} {use : α → Usage} {occursIn : α → Bool → Bool → Prop}
    (each : ∀ item ∈ items, (use item).Records name (occursIn item)) :
    (Usage.unionAll (items.map use)).Records name fun assigns crosses =>
      ∃ item ∈ items, occursIn item assigns crosses := by
  rw [Usage.unionAll, List.foldl_map]
  exact (foldl_union each empty).congr (by simp)

theorem without (records : usage.Records name occurs) (bound : List Name) :
    (usage.without bound).Records name fun assigns crosses =>
      name ∉ bound ∧ occurs assigns crosses where
  sorted := records.sorted.without bound
  free := by
    rw [mem_names_without, records.free, and_comm]
    simp only [exists_and_left]
  mutated := by
    simp only [isMutated_without, Bool.and_eq_true, Bool.not_eq_true',
      List.contains_eq_mem, decide_eq_false_iff_not, records.mutated, exists_and_left]
  captured := by
    simp only [isCaptured_without, Bool.and_eq_true, Bool.not_eq_true',
      List.contains_eq_mem, decide_eq_false_iff_not, records.captured, exists_and_left]

theorem captureAll (records : usage.Records name occurs) :
    usage.captureAll.Records name fun assigns crosses =>
      crosses = true ∧ ∃ inner, occurs assigns inner where
  sorted := records.sorted.captureAll
  free := by simp only [names_captureAll, records.free, exists_eq_left]
  mutated := by
    simp only [isMutated_captureAll, records.mutated, exists_eq_left]
  captured := by
    simp only [isCaptured_captureAll, decide_eq_true_iff, records.free, true_and]

end Records

end Usage

namespace Expr

variable {clauses : List (Name × Expr)} {catches : List (Param × Expr)}

/-! ## The uses of each form -/

variable {name : Name}

/-- A form that is neither a read nor an assignment has the occurrences of its
parts. -/
theorem occurs_iff_part {whole : Expr} (notVar : ∀ other, whole ≠ var other)
    (notSet : ∀ other value, whole ≠ set other value)
    (assigns crosses : Bool) :
    whole.Occurs name assigns crosses ↔
      Part.Among name whole.parts assigns crosses := by
  constructor
  · intro occurs
    cases occurs with
    | read => exact absurd rfl (notVar name)
    | assignment value => exact absurd rfl (notSet name value)
    | inPart member unbound inner => exact ⟨_, member, unbound, _, inner, rfl⟩
  · rintro ⟨part, member, unbound, inner, occurs, rfl⟩
    exact .inPart member unbound occurs

theorem occurs_set_iff {other : Name} {value : Expr}
    {assigns crosses : Bool} :
    (set other value).Occurs name assigns crosses ↔
      value.Occurs name assigns crosses ∨
        name = other ∧ assigns = true ∧ crosses = false := by
  constructor
  · intro occurs
    cases occurs with
    | assignment => exact Or.inr ⟨rfl, rfl, rfl⟩
    | inPart member _ inner =>
        rw [List.mem_singleton.mp member] at inner ⊢
        exact Or.inl inner
  · rintro (occurs | ⟨rfl, rfl, rfl⟩)
    · have isPart : ({ expr := value } : Part) ∈ (set other value).parts := List.mem_cons_self
      exact .inPart isPart List.not_mem_nil occurs
    · exact .assignment value

/-- The uses of an expression are exact for a name. -/
def Exact (name : Name) (expr : Expr) : Prop :=
  expr.usage.Records name (expr.Occurs name)

/-- What holds of the parts of a form with clauses holds of each initializer. -/
theorem of_clauses {κ : Type} {clauses : List (κ × Expr)} {rest : List Expr} {motive : Expr → Prop}
    (each : ∀ child ∈ clauses.map (·.2) ++ rest, motive child) :
    ∀ clause ∈ clauses, motive clause.2 :=
  fun _ member => each _ (List.mem_append_left _ (List.mem_map_of_mem member))

/-- Each clause binds its name in the clauses after it and in the body. -/
theorem records_sequential {body : Expr} (inits : ∀ clause ∈ clauses, Exact name clause.2)
    (exact : Exact name body) :
    (Usage.sequential (namedUsages clauses) body.usage).Records name
      (Part.Among name (sequentialParts clauses body)) := by
  induction clauses with
  | nil => exact exact.congr (by simp [sequentialParts])
  | cons clause clauses ih =>
      have rest := ih (List.forall_mem_cons.mp inits).2
      have whole := (inits clause List.mem_cons_self).union (rest.without [clause.1])
      refine whole.congr fun assigns crosses => ?_
      simp [sequentialParts, Part.occurs_under, Part.Among, and_left_comm]

/-- Each handler binds its exception in itself. -/
theorem records_guarded {body : Expr} (exact : Exact name body)
    (handlers : ∀ handler ∈ catches, Exact name handler.2) :
    (catches.foldl (fun usage handler =>
        usage.union (handler.2.usage.without [handler.1.name])) body.usage).Records name
      (Part.Among name (guardedParts body catches)) := by
  have each := fun handler member => (handlers handler member).without [handler.1.name]
  exact (Usage.Records.foldl_union each exact).congr (by simp [guardedParts])

/-- The uses of a form are exact when they record the occurrences in its
parts. -/
theorem exact_of_parts {whole : Expr} {occurs : Bool → Bool → Prop}
    (records : whole.usage.Records name occurs) (notVar : ∀ other, whole ≠ var other)
    (notSet : ∀ other value, whole ≠ set other value)
    (same : ∀ assigns crosses,
      occurs assigns crosses ↔ Part.Among name whole.parts assigns crosses) :
    Exact name whole :=
  records.congr fun assigns crosses =>
    (same assigns crosses).trans (occurs_iff_part notVar notSet assigns crosses).symm

/-- A node that binds nothing has the occurrences of its children. -/
theorem parts_of_isPlain {expr : Expr} (plain : expr.isPlain = true) :
    expr.parts = expr.children.map fun child => { expr := child } := by
  cases expr <;> first | rfl | exact absurd plain Bool.false_ne_true

theorem exact_of_isPlain {expr : Expr} (plain : expr.isPlain = true)
    (exact : ∀ child ∈ expr.children, Exact name child) :
    Exact name expr := by
  have records : (Usage.unionAll (expr.children.map usage)).Records name _ := .unionAll exact
  rw [← usage_of_isPlain plain] at records
  refine exact_of_parts records (by rintro _ rfl; cases plain)
    (by rintro _ _ rfl; cases plain) ?_
  simp [parts_of_isPlain plain]

theorem exact_var (other : Name) : Exact name (var other) := by
  refine (Usage.Records.read other).congr fun assigns crosses => ?_
  constructor
  · rintro ⟨rfl, rfl, rfl⟩
    exact .read
  · intro occurs
    cases occurs with
    | read => exact ⟨rfl, rfl, rfl⟩
    | inPart member => exact absurd member List.not_mem_nil

theorem exact_set {value : Expr} (exact : Exact name value) (other : Name) :
    Exact name (set other value) :=
  (exact.union (.assigned other)).congr fun _ _ => occurs_set_iff.symm

section Binding

variable {body : Expr}

theorem exact_literal (value : Literal) : Exact name (literal value) :=
  exact_of_parts .empty nofun nofun (by simp [parts, children])

theorem exact_letPar (inits : ∀ clause ∈ clauses, Exact name clause.2) (exact : Exact name body) :
    Exact name (letPar clauses body) := by
  have records := (Usage.Records.unionAll inits).union (exact.without (clauses.map (·.1)))
  refine exact_of_parts (records.of_eq ?_) nofun nofun (by simp [parts])
  simp [usage, namedUsages_eq_map, Usage.parallel, Function.comp_def]

theorem exact_letSeq (inits : ∀ clause ∈ clauses, Exact name clause.2) (exact : Exact name body) :
    Exact name (letSeq clauses body) :=
  exact_of_parts (records_sequential inits exact) nofun nofun fun _ _ => Iff.rfl

theorem exact_letRec {clauses : List (Param × Expr)}
    (inits : ∀ clause ∈ clauses, Exact name clause.2)
    (exact : Exact name body) :
    Exact name (letRec clauses body) := by
  have records :=
    ((Usage.Records.unionAll inits).union exact).without (clauses.map (·.1.name))
  refine exact_of_parts (records.of_eq ?_) nofun nofun fun assigns crosses => ?_
  · simp [usage, typedUsages_eq_map, Usage.recursive, Function.comp_def]
  · -- The same names are bound in every part.
    rw [parts, Part.among_map]
    simp only [Part.occurs_outside, and_left_comm, exists_and_left, List.mem_append,
      List.mem_map, List.mem_singleton, or_and_right, exists_or,
      exists_exists_and_eq_and, exists_eq_left]

theorem exact_loop {vars : List (Param × Expr)} (inits : ∀ var ∈ vars, Exact name var.2)
    (exact : Exact name body) (id : NodeId) (loopName : Name)
    (ret : SourceTy) :
    Exact name (loop id loopName vars ret body) := by
  have inside := (exact.without (vars.map (·.1.name))).captureAll
  have records := (Usage.Records.unionAll inits).union (inside.without [loopName])
  refine exact_of_parts (records.of_eq ?_) nofun nofun ?_
  · simp [usage, typedUsages_eq_map, Usage.moved, Function.comp_def]
  · simp [parts, and_assoc, and_left_comm]

theorem exact_lambda (exact : Exact name body) (id : NodeId) (params : List Param) :
    Exact name (lambda id params body) :=
  exact_of_parts (exact.without (params.map Param.name)).captureAll nofun nofun
    (by simp [parts, and_left_comm])

theorem exact_tryCatch (exact : Exact name body)
    (handlers : ∀ handler ∈ catches, Exact name handler.2) (id : NodeId) :
    Exact name (tryCatch id body catches) := by
  have records := (records_guarded exact handlers).captureAll
  refine exact_of_parts (records.of_eq ?_) nofun nofun fun _ _ => ?_
  · simp [usage, typedUsages_eq_map, Usage.guarded, List.foldl_map]
  · exact (Part.among_enclosed _).symm

theorem exact_tryFinally {final : Expr} (exact : Exact name body)
    (handlers : ∀ handler ∈ catches, Exact name handler.2) (last : Exact name final) (id : NodeId) :
    Exact name (tryFinally id body catches final) := by
  have records := ((records_guarded exact handlers).union last).captureAll
  refine exact_of_parts (records.of_eq ?_) nofun nofun fun _ _ => ?_
  · simp [usage, typedUsages_eq_map, Usage.guarded, List.foldl_map]
  · rw [parts, Part.among_enclosed]
    simp only [Part.among_append, Part.among_cons, Part.among_nil, Part.occurs_outside,
      List.not_mem_nil, not_false_eq_true, true_and, or_false]

theorem exact_pin {arrays : List (Name × Expr)} (inits : ∀ array ∈ arrays, Exact name array.2)
    (exact : Exact name body)
    (id : NodeId) :
    Exact name (pin id arrays body) := by
  have inside := (exact.without (arrays.map (·.1))).captureAll
  have records := (Usage.Records.unionAll inits).union inside
  refine exact_of_parts (records.of_eq ?_) nofun nofun ?_
  · simp [usage, namedUsages_eq_map, Usage.moved, Function.comp_def]
  · simp [parts, and_left_comm]

end Binding

theorem exact_all (name : Name) (expr : Expr) : Exact name expr := by
  induction expr using childInduction with
  | step expr ih =>
      cases expr
      case literal value =>
        exact exact_literal value
      case var other => exact exact_var other
      case set other value => exact exact_set (ih value (by simp [children])) other
      case letPar clauses body =>
        exact exact_letPar (of_clauses ih) (ih body (by simp [children]))
      case letSeq clauses body =>
        exact exact_letSeq (of_clauses ih) (ih body (by simp [children]))
      case letRec clauses body =>
        exact exact_letRec (of_clauses ih) (ih body (by simp [children]))
      case loop id loopName vars ret body =>
        exact exact_loop (of_clauses ih) (ih body (by simp [children])) id loopName ret
      case lambda id params body =>
        exact exact_lambda (ih body (by simp [children])) id params
      case tryCatch id body catches =>
        refine exact_tryCatch (ih body (by simp [children])) (fun handler member => ?_) id
        exact ih _ (List.mem_cons_of_mem _ (List.mem_map_of_mem member))
      case tryFinally id body catches final =>
        refine exact_tryFinally (ih body (by simp [children])) (fun handler member => ?_)
          (ih final (by simp [children])) id
        exact ih _ (List.mem_append_left _
          (List.mem_cons_of_mem _ (List.mem_map_of_mem member)))
      case pin id arrays body =>
        exact exact_pin (of_clauses ih) (ih body (by simp [children])) id
      all_goals exact exact_of_isPlain rfl ih

/-- The analysis finds exactly the names that occur free, marks those as
mutated that some free occurrence assigns, and those as captured of which some
free occurrence lies inside a boundary. -/
theorem usage_exact (expr : Expr) (name : Name) :
    (name ∈ expr.usage.names ↔ ∃ assigns crosses, expr.Occurs name assigns crosses) ∧
    (expr.usage.isMutated name = true ↔ ∃ crosses, expr.Occurs name true crosses) ∧
    (expr.usage.isCaptured name = true ↔ ∃ assigns, expr.Occurs name assigns true) :=
  let exact := exact_all name expr
  ⟨exact.free, exact.mutated, exact.captured⟩

end Expr

end ClassForge
