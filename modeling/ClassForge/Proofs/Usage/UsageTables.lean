import ClassForge.Expr.UsageTable
import ClassForge.Proofs.Usage.FreeVariables

/-!
# The table of free variables holds them

An analysis of a node finds the free variables that the recursion over the expression gives, enters
them under the place of the node, does the same for every node within it, and leaves the other
places alone.  Whatever is put together from a table of the roots of a module is therefore what the
recursion gives: the look-ups never fail, and the scopes that are asked for again have the free
variables that were found for the node the first time.
-/

namespace ClassForge

/-! ## Places of nodes -/

/-- The node at a place within an expression. -/
inductive Expr.At : Expr → NodePlace → Expr → Prop
  | self {expr : Expr} : At expr [] expr
  | child {expr part node : Expr} {index : Nat} {within : NodePlace}
      (present : expr.children[index]? = some part)
      (inside : At part within node) : At expr (within ++ [index]) node

/-- Two parts of one node have no place in common. -/
theorem NodePlace.part_unique {place other : NodePlace} {left right : Nat}
    (inLeft : (left :: place) <:+ other) (inRight : (right :: place) <:+ other) :
    left = right := by
  have nested : (left :: place) <:+ (right :: place) :=
    List.suffix_of_suffix_length_le inLeft inRight (by simp)
  have same : left :: place = right :: place := nested.eq_of_length (by simp)
  exact (List.cons.inj same).1

namespace UsageTable

variable {table : UsageTable} {place : NodePlace} {expr : Expr}

theorem get?_insert (table : UsageTable) (place other : NodePlace) (usage : Usage) :
    (table.insert place usage).get? other =
      if other = place then some usage else table.get? other :=
  lookup_cons_ite other place usage table.entries

/-- Every node within an expression at a place has its free variables in the table. -/
def Holds (table : UsageTable) (expr : Expr) (place : NodePlace) : Prop :=
  ∀ within node, expr.At within node → table.get? (within ++ place) = some node.usage

/-- The parts of a node at a place are held, the first of them under a number. -/
def HoldsParts (table : UsageTable) (parts : List Expr) (first : Nat) (place : NodePlace) : Prop :=
  ∀ index part, parts[index]? = some part → table.Holds part ((first + index) :: place)

theorem holdsParts_nil (table : UsageTable) (first : Nat) (place : NodePlace) :
    table.HoldsParts [] first place := by
  intro index part present
  simp at present

theorem HoldsParts.append {before after : List Expr} {first : Nat}
    (left : table.HoldsParts before first place)
    (right : table.HoldsParts after (first + before.length) place) :
    table.HoldsParts (before ++ after) first place := by
  intro index part present
  by_cases early : index < before.length
  · rw [List.getElem?_append_left early] at present
    exact left index part present
  · have late : before.length ≤ index := Nat.le_of_not_lt early
    rw [List.getElem?_append_right late] at present
    have held := right (index - before.length) part present
    rwa [Nat.add_assoc, Nat.add_sub_cancel' late] at held

/-- What holds an expression holds its children. -/
theorem Holds.child {part : Expr} {index : Nat} (holds : table.Holds expr place)
    (present : expr.children[index]? = some part) : table.Holds part (index :: place) := by
  intro within node inside
  have held := holds _ node (.child present inside)
  rwa [List.append_assoc] at held

/-- What holds an expression holds the nodes within it. -/
theorem Holds.inner {node : Expr} {within : NodePlace} (holds : table.Holds expr place)
    (inside : expr.At within node) : table.Holds node (within ++ place) := by
  induction inside generalizing place with
  | self => exact holds
  | child present _ ih =>
      have held := ih (holds.child present)
      rwa [List.append_cons] at held

/-- A table in which a node is entered over its held children holds the node. -/
theorem HoldsParts.insert (parts : table.HoldsParts expr.children 0 place) :
    (table.insert place expr.usage).Holds expr place := by
  intro within node inside
  rw [get?_insert]
  cases inside with
  | self => rw [List.nil_append, if_pos rfl]
  | @child _ part _ index within present inside =>
      have deeper : within ++ [index] ++ place ≠ place := by
        intro same
        have lengths := congrArg List.length same
        simp only [List.length_append, List.length_singleton] at lengths
        omega
      rw [if_neg deeper, List.append_assoc]
      have held := parts index part present within node inside
      rwa [Nat.zero_add] at held

/-- A node that is held is found. -/
theorem Holds.lookup (holds : table.Holds expr place) :
    table.lookup expr place = .ok expr.usage := by
  have entered : table.get? place = some expr.usage := holds [] expr .self
  rw [UsageTable.lookup, entered]

end UsageTable

/-! ## What an analysis enters -/

/-- An analysis finds a value and enters the parts of a node at a place, the first of them under a
number, and nothing else. -/
structure Analysis.Finds {α : Type} (analysis : Analysis α) (value : α) (parts : List Expr)
    (first : Nat) (place : NodePlace) : Prop where
  result : ∀ table, (analysis.run table).1 = value
  entered : ∀ table, (analysis.run table).2.HoldsParts parts first place
  kept : ∀ table other,
    (∀ index, first ≤ index → index < first + parts.length → ¬(index :: place) <:+ other) →
      (analysis.run table).2.get? other = table.get? other

/-- An analysis of an expression finds its free variables and enters every node within it, and
nothing else. -/
structure Expr.Recorded (expr : Expr) : Prop where
  result : ∀ place table, ((expr.analyze place).run table).1 = expr.usage
  entered : ∀ place table, ((expr.analyze place).run table).2.Holds expr place
  kept : ∀ place table other, ¬place <:+ other →
    ((expr.analyze place).run table).2.get? other = table.get? other

namespace Analysis

variable {α β : Type} {place : NodePlace} {first : Nat}

theorem Finds.pure (value : α) : Finds (Pure.pure value) value [] first place where
  result _ := rfl
  entered table := table.holdsParts_nil first place
  kept _ _ _ := rfl

/-- One analysis after another, over the parts that come after those of the first. -/
theorem Finds.bind {analysis : Analysis α} {next : α → Analysis β} {value : α} {final : β}
    {before after : List Expr} {second : Nat} (head : Finds analysis value before first place)
    (tail : Finds (next value) final after second place)
    (follows : second = first + before.length := by grind) :
    Finds (analysis >>= next) final (before ++ after) first place := by
  subst follows
  have run : ∀ table, (analysis >>= next).run table =
      (next value).run (analysis.run table).2 := by
    intro table
    rw [← head.result table]
    rfl
  constructor
  · intro table
    rw [run]
    exact tail.result _
  · intro table
    rw [run]
    refine UsageTable.HoldsParts.append ?_ (tail.entered _)
    intro index part present within node inside
    rw [tail.kept]
    · exact head.entered table index part present within node inside
    · -- The parts of the second analysis have larger numbers.
      intro other late _ shared
      have early : index < before.length := (List.getElem?_eq_some_iff.mp present).1
      have same := NodePlace.part_unique shared (List.suffix_append within _)
      omega
  · intro table other apart
    rw [List.length_append] at apart
    rw [run, tail.kept _ _ fun index low high => apart index (by omega) (by omega),
      head.kept _ _ fun index low high => apart index low (by omega)]

/-- What is found is given on in another form. -/
theorem Finds.map {analysis : Analysis α} {value : α} {parts : List Expr} {form : α → β}
    (finds : Finds analysis value parts first place) :
    Finds (do let found ← analysis; return form found) (form value) parts first place := by
  have both : Finds (analysis >>= fun found => Pure.pure (form found)) (form value) (parts ++ [])
      first place := finds.bind (.pure (form value)) rfl
  rwa [List.append_nil] at both

/-- An expression that is recorded is a part that is found. -/
theorem finds_part {part : Expr} (recorded : part.Recorded) :
    Finds (part.analyze (first :: place)) part.usage [part] first place where
  result := recorded.result _
  entered table index member present := by
    obtain ⟨rfl, rfl⟩ : index = 0 ∧ part = member := by
      cases index <;> simp_all
    exact recorded.entered _ table
  kept table other apart := by
    refine recorded.kept _ table other (apart first (Nat.le_refl _) ?_)
    simp

/-- The parts of a node, each of them recorded, are found one after another. -/
theorem finds_all {parts : List Expr} (recorded : ∀ part ∈ parts, part.Recorded) :
    Finds (Expr.analyzeAll parts first place) (parts.map Expr.usage) parts first place := by
  induction parts generalizing first with
  | nil => exact .pure []
  | cons part parts ih =>
      obtain ⟨head, tail⟩ := List.forall_mem_cons.mp recorded
      have rest : Finds (do
            let found ← Expr.analyzeAll parts (first + 1) place
            return part.usage :: found) (part.usage :: parts.map Expr.usage) parts (first + 1)
          place := (ih tail).map
      exact (finds_part head).bind rest

theorem analyzeArms_eq (arms : List (List UInt32 × Expr)) (first : Nat) (place : NodePlace) :
    Expr.analyzeArms arms first place = Expr.analyzeAll (arms.map (·.2)) first place := by
  induction arms generalizing first with
  | nil => rfl
  | cons arm arms ih => simp only [Expr.analyzeArms, List.map_cons, Expr.analyzeAll, ih]

theorem analyzeNamed_eq (clauses : List (Name × Expr)) (first : Nat) (place : NodePlace) :
    Expr.analyzeNamed clauses first place = Expr.analyzeAll (clauses.map (·.2)) first place := by
  induction clauses generalizing first with
  | nil => rfl
  | cons clause clauses ih => simp only [Expr.analyzeNamed, List.map_cons, Expr.analyzeAll, ih]

theorem analyzeTyped_eq (clauses : List (Param × Expr)) (first : Nat) (place : NodePlace) :
    Expr.analyzeTyped clauses first place = Expr.analyzeAll (clauses.map (·.2)) first place := by
  induction clauses generalizing first with
  | nil => rfl
  | cons clause clauses ih => simp only [Expr.analyzeTyped, List.map_cons, Expr.analyzeAll, ih]

end Analysis

/-- A node whose children are found is recorded once it is entered. -/
theorem Expr.Recorded.of_finds {expr : Expr} {analysis : NodePlace → Analysis Usage}
    (unfolds : ∀ place, expr.analyze place = Analysis.record place (analysis place))
    (finds : ∀ place, (analysis place).Finds expr.usage expr.children 0 place) :
    expr.Recorded := by
  have run : ∀ place table, (expr.analyze place).run table =
      (expr.usage, ((analysis place).run table).2.insert place expr.usage) := by
    intro place table
    rw [unfolds, ← (finds place).result table]
    rfl
  constructor
  · intro place table
    rw [run]
  · intro place table
    rw [run]
    exact ((finds place).entered table).insert
  · intro place table other apart
    have elsewhere : other ≠ place := by
      rintro rfl
      exact apart (List.suffix_refl _)
    rw [run, UsageTable.get?_insert, if_neg elsewhere]
    exact (finds place).kept table other fun index _ _ inside =>
      apart ((List.suffix_cons index place).trans inside)

/-! ## Folds over clauses -/

/-- Clauses of which each binds its name in all that follows, from the last one to the first. -/
theorem Usage.sequential_eq_foldl (clauses : List (Name × Usage)) (body : Usage) :
    Usage.sequential clauses body =
      clauses.reverse.foldl (fun usage (name, init) => init.union (usage.without [name])) body := by
  induction clauses with
  | nil => rfl
  | cons clause clauses ih =>
      rw [Usage.sequential, ih, List.reverse_cons, List.foldl_append]
      rfl

theorem Usage.guarded_none (body : Usage) (handlers : List (Name × Usage)) :
    Usage.guarded body handlers none = (Usage.handled body handlers).captureAll :=
  rfl

theorem Usage.guarded_some (body final : Usage) (handlers : List (Name × Usage)) :
    Usage.guarded body handlers (some final) =
      ((Usage.handled body handlers).union final).captureAll :=
  rfl

namespace Expr

/-- The names of named clauses next to what was found for the clauses. -/
theorem zip_names (clauses : List (Name × Expr)) :
    (clauses.map (·.1)).zip ((clauses.map (·.2)).map usage) = namedUsages clauses := by
  rw [namedUsages_eq_map, List.map_map, List.zip_map']
  rfl

/-- The names of typed clauses next to what was found for the clauses. -/
theorem zip_params (clauses : List (Param × Expr)) :
    (clauses.map (·.1.name)).zip ((clauses.map (·.2)).map usage) = typedUsages clauses := by
  rw [typedUsages_eq_map, List.map_map, List.zip_map']
  rfl

/-- An analysis of an expression finds its free variables and enters every node within it. -/
theorem recorded (expr : Expr) : expr.Recorded := by
  induction expr using childInduction with
  | step expr ih =>
      have part {child : Expr} (first : Nat) (place : NodePlace) (member : child ∈ expr.children) :
          (child.analyze (first :: place)).Finds child.usage [child] first place :=
        Analysis.finds_part (ih child member)
      have all {parts : List Expr} (first : Nat) (place : NodePlace)
          (within : ∀ child ∈ parts, child ∈ expr.children) :
          (analyzeAll parts first place).Finds (parts.map usage) parts first place :=
        Analysis.finds_all fun child member => ih child (within child member)
      cases expr <;> refine .of_finds (fun _ => rfl) fun place => ?_
      case literal => exact .pure _
      case var => exact .pure _
      case set name value => exact (part 0 place List.mem_cons_self).map
      case seq items =>
        rw [usage, usages_eq_map]
        exact (all 0 place fun _ member => member).map
      case logic connective items =>
        rw [usage, usages_eq_map]
        exact (all 0 place fun _ member => member).map
      case when test body =>
        exact (part 0 place List.mem_cons_self).bind (part 1 place (by simp [children])).map
      case cond test yes no =>
        exact (part 0 place List.mem_cons_self).bind
          ((part 1 place (by simp [children])).bind (part 2 place (by simp [children])).map)
      case «while» test body =>
        exact (part 0 place List.mem_cons_self).bind (part 1 place (by simp [children])).map
      case switch selector arms default =>
        rw [usage, armUsages_eq_map]
        simp only [Analysis.analyzeArms_eq]
        exact (part 0 place List.mem_cons_self).bind
          ((all 1 place fun _ member => List.mem_append_left _ (List.mem_cons_of_mem _ member)).bind
            (part (arms.length + 1) place List.mem_concat_self).map)
      case letPar clauses body =>
        rw [usage, Usage.parallel, map_namedUsages, names_namedUsages]
        simp only [Analysis.analyzeNamed_eq]
        exact (all 0 place fun _ member => List.mem_append_left _ member).bind
          (part clauses.length place List.mem_concat_self).map
      case letSeq clauses body =>
        rw [usage, Usage.sequential_eq_foldl, ← zip_names]
        simp only [Analysis.analyzeNamed_eq]
        exact (all 0 place fun _ member => List.mem_append_left _ member).bind
          (part clauses.length place List.mem_concat_self).map
      case letRec clauses body =>
        rw [usage, Usage.recursive, map_typedUsages, names_typedUsages]
        simp only [Analysis.analyzeTyped_eq]
        exact (all 0 place fun _ member => List.mem_append_left _ member).bind
          (part clauses.length place List.mem_concat_self).map
      case loop id name vars ret body =>
        rw [usage, Usage.moved, map_typedUsages, names_typedUsages]
        simp only [Analysis.analyzeTyped_eq]
        exact (all 0 place fun _ member => List.mem_append_left _ member).bind
          (part vars.length place List.mem_concat_self).map
      case lambda => exact (part 0 place List.mem_cons_self).map
      case invoke function args =>
        rw [usage, usages_eq_map]
        exact (part 0 place List.mem_cons_self).bind
          (all 1 place fun _ member => List.mem_cons_of_mem _ member).map
      case unary => exact (part 0 place List.mem_cons_self).map
      case binary =>
        exact (part 0 place List.mem_cons_self).bind (part 1 place (by simp [children])).map
      case ternary =>
        exact (part 0 place List.mem_cons_self).bind
          ((part 1 place (by simp [children])).bind (part 2 place (by simp [children])).map)
      case staticField => exact .pure _
      case staticProperty => exact .pure _
      case staticCall owner name args =>
        rw [usage, usages_eq_map]
        exact (all 0 place fun _ member => member).map
      case call receiver name args =>
        rw [usage, usages_eq_map]
        exact (part 0 place List.mem_cons_self).bind
          (all 1 place fun _ member => List.mem_cons_of_mem _ member).map
      case new type args =>
        rw [usage, usages_eq_map]
        exact (all 0 place fun _ member => member).map
      case tryCatch id body catches =>
        rw [usage, Usage.guarded_none, ← zip_params]
        simp only [Analysis.analyzeTyped_eq]
        exact (part 0 place List.mem_cons_self).bind
          (all 1 place fun _ member => List.mem_cons_of_mem _ member).map
      case tryFinally id body catches final =>
        rw [usage, Usage.guarded_some, ← zip_params]
        simp only [Analysis.analyzeTyped_eq]
        exact (part 0 place List.mem_cons_self).bind
          ((all 1 place fun _ member => List.mem_append_left _ (List.mem_cons_of_mem _ member)).bind
            (part (catches.length + 1) place List.mem_concat_self).map)
      case pin id arrays body =>
        rw [usage, Usage.moved, map_namedUsages, names_namedUsages]
        simp only [Analysis.analyzeNamed_eq]
        exact (all 0 place fun _ member => List.mem_append_left _ member).bind
          (part arrays.length place List.mem_concat_self).map

/-- With a table of its own, an analysis finds the free variables of the expression. -/
theorem analyzed_eq_usage (expr : Expr) : expr.analyzed = expr.usage :=
  expr.recorded.result [] .empty

end Expr

namespace UsageTable

/-! ## What is put together from a table -/

/-- The table of some roots holds every node of every root. -/
theorem ofRoots_holds {roots : List Expr} {root node : Expr} {index : Nat} {within : NodePlace}
    (present : roots[index]? = some root) (inside : root.At within node) :
    (ofRoots roots).Holds node (within ++ [index]) := by
  have finds : (Expr.analyzeAll roots 0 []).Finds (roots.map Expr.usage) roots 0 [] :=
    Analysis.finds_all fun part _ => part.recorded
  have held := finds.entered .empty index root present
  rw [Nat.zero_add] at held
  exact held.inner inside

/-- A fold of which no step fails. -/
theorem foldlM_ok {ε α β : Type} {step : β → α → Except ε β} {next : β → α → β} {items : List α}
    (agrees : ∀ item ∈ items, ∀ value, step value item = .ok (next value item)) (value : β) :
    items.foldlM step value = .ok (items.foldl next value) := by
  induction items generalizing value with
  | nil => rfl
  | cons item items ih =>
      obtain ⟨head, tail⟩ := List.forall_mem_cons.mp agrees
      rw [List.foldlM_cons, head]
      exact ih tail _

variable {table : UsageTable} {expr : Expr} {place : NodePlace}

/-- The children of a node that is held are found. -/
theorem Holds.lookup_child (holds : table.Holds expr place) (part : Expr) (index : Nat)
    (present : expr.children[index]? = some part) :
    table.lookup part (index :: place) = .ok part.usage :=
  (holds.child present).lookup

/-- A fold that looks numbered items up, where what it finds does not depend on the numbers. -/
theorem foldlM_zipIdx_ok {ε α β : Type} {step : β → α × Nat → Except ε β} {items : List α}
    {first : Nat} (next : β → α → β)
    (agrees : ∀ index item, items[index]? = some item →
      ∀ value, step value (item, first + index) = .ok (next value item)) (value : β) :
    (items.zipIdx first).foldlM step value = .ok (items.foldl next value) ∧
    (items.zipIdx first).reverse.foldlM step value = .ok (items.reverse.foldl next value) := by
  have each : ∀ numbered ∈ items.zipIdx first, ∀ value,
      step value numbered = .ok (next value numbered.1) := by
    rintro ⟨item, number⟩ member value
    obtain ⟨low, present⟩ := List.mk_mem_zipIdx_iff_le_and_getElem?_sub.mp member
    have found := agrees _ item present value
    rwa [Nat.add_sub_cancel' low] at found
  have plain : (items.zipIdx first).map Prod.fst = items := List.zipIdx_map_fst first items
  constructor
  · rw [foldlM_ok each, ← List.foldl_map (f := Prod.fst) (g := next), plain]
  · rw [foldlM_ok fun numbered member => each numbered (List.mem_reverse.mp member),
      ← List.foldl_map (f := Prod.fst) (g := next), List.map_reverse, plain]

/-- The handlers of a `try` are found after its body. -/
theorem handlers_found (catches : List (Param × Expr))
    (found : ∀ index clause, catches[index]? = some clause →
      table.lookup clause.2 ((1 + index) :: place) = .ok clause.2.usage) (body : Usage) :
    boundaryFree.handlers table place catches body =
      .ok (Usage.handled body (Expr.typedUsages catches)) := by
  rw [boundaryFree.handlers, (foldlM_zipIdx_ok (fun usage clause =>
    usage.union (clause.2.usage.without [clause.1.name])) ?_ body).1]
  · rw [Usage.handled, Expr.typedUsages_eq_map, List.foldl_map]
  · intro index clause present usage
    simp only [found index clause present]
    rfl

/-- The free variables of the part of a boundary that moves are put together from the table. -/
theorem Holds.boundaryFree {id : NodeId} (holds : table.Holds expr place)
    (boundary : expr.nodeId? = some id) : table.boundaryFree expr place = .ok expr.crossing := by
  cases expr <;> try cases boundary
  case loop name vars ret body =>
    have found := holds.lookup_child body vars.length (by simp [Expr.children])
    simp only [UsageTable.boundaryFree, found]
    rfl
  case lambda params body =>
    have found := holds.lookup_child body 0 (by simp [Expr.children])
    simp only [UsageTable.boundaryFree, found]
    rfl
  case pin arrays body =>
    have found := holds.lookup_child body arrays.length (by simp [Expr.children])
    simp only [UsageTable.boundaryFree, found]
    rfl
  case tryCatch body catches =>
    have found := holds.lookup_child body 0 (by simp [Expr.children])
    have handled := handlers_found catches (fun index clause present =>
      holds.lookup_child _ _ (by simp [Expr.children, Nat.add_comm 1, present])) body.usage
    simp only [UsageTable.boundaryFree, bind, Except.bind, found, handled]
    rfl
  case tryFinally body catches final =>
    have found := holds.lookup_child body 0 (by simp [Expr.children])
    have handled := handlers_found catches (fun index clause present => holds.lookup_child _ _ (by
      obtain ⟨inside, rfl⟩ := List.getElem?_eq_some_iff.mp present
      simp [Expr.children, Nat.add_comm 1, List.getElem?_append, inside])) body.usage
    have last := holds.lookup_child final (catches.length + 1) (by simp [Expr.children])
    simp only [UsageTable.boundaryFree, bind, Except.bind, found, handled, last]
    rfl

/-- The free variables of the scope of a clause of a `let*` are put together from the table. -/
theorem Holds.sequentialScope {before rest : List (Name × Expr)} {body : Expr}
    (holds : table.Holds (.letSeq (before ++ rest) body) place) :
    table.sequentialScope before.length rest body place =
      .ok (Usage.sequential (Expr.namedUsages rest) body.usage) := by
  have last := holds.lookup_child body (before.length + rest.length) (by simp [Expr.children])
  have init : ∀ index clause, rest[index]? = some clause →
      table.lookup clause.2 ((before.length + index) :: place) = .ok clause.2.usage := by
    intro index clause present
    obtain ⟨inside, rfl⟩ := List.getElem?_eq_some_iff.mp present
    exact holds.lookup_child _ _ (by simp [Expr.children, List.getElem?_append, inside])
  rw [UsageTable.sequentialScope, last]
  refine (foldlM_zipIdx_ok (fun usage clause =>
    clause.2.usage.union (usage.without [clause.1])) ?_ body.usage).2.trans ?_
  · intro index clause present usage
    simp only [init index clause present]
    rfl
  · rw [Usage.sequential_eq_foldl, Expr.namedUsages_eq_map, ← List.map_reverse, List.foldl_map]

/-- What is put together from a table for a node at a place is what an analysis of the node finds
with a table of its own. -/
structure Recomputes (table : UsageTable) (expr : Expr) (place : NodePlace) : Prop where
  node : table.lookup expr place = .ok expr.analyzed
  letSeq : ∀ before rest body, expr = .letSeq (before ++ rest) body →
    table.sequentialScope before.length rest body place = .ok (Expr.letSeq rest body).analyzed
  lambda : ∀ id params body, expr = .lambda id params body →
    table.boundaryFree expr place = .ok expr.analyzed
  tryCatch : ∀ id body catches, expr = .tryCatch id body catches →
    table.boundaryFree expr place = .ok expr.analyzed
  tryFinally : ∀ id body catches final, expr = .tryFinally id body catches final →
    table.boundaryFree expr place = .ok expr.analyzed
  /-- The variables of a loop get their first values outside, and its name is bound inside. -/
  loop : ∀ id name vars ret body, expr = .loop id name vars ret body →
    ∃ free, table.boundaryFree expr place = .ok free ∧
      expr.analyzed = (Usage.unionAll (vars.map (·.2.analyzed))).union (free.without [name])
  /-- The arrays are found outside. -/
  pin : ∀ id arrays body, expr = .pin id arrays body →
    ∃ free, table.boundaryFree expr place = .ok free ∧
      expr.analyzed = (Usage.unionAll (arrays.map (·.2.analyzed))).union free

/-- Whatever is put together from the table of some roots, for a node of one of them, is what an
analysis of that node alone finds. -/
theorem ofRoots_recomputes {roots : List Expr} {root node : Expr} {index : Nat} {within : NodePlace}
    (present : roots[index]? = some root) (inside : root.At within node) :
    (ofRoots roots).Recomputes node (within ++ [index]) := by
  have holds := ofRoots_holds present inside
  constructor
  case node => rw [Expr.analyzed_eq_usage, holds.lookup]
  case letSeq =>
    rintro before rest body rfl
    rw [Expr.analyzed_eq_usage, holds.sequentialScope, Expr.usage]
  case lambda =>
    rintro id params body rfl
    rw [Expr.analyzed_eq_usage, holds.boundaryFree rfl, Expr.usage, Expr.crossing]
  case tryCatch =>
    rintro id body catches rfl
    rw [Expr.analyzed_eq_usage, holds.boundaryFree rfl, Expr.usage, Expr.crossing]
  case tryFinally =>
    rintro id body catches final rfl
    rw [Expr.analyzed_eq_usage, holds.boundaryFree rfl, Expr.usage, Expr.crossing]
  case loop =>
    rintro id name vars ret body rfl
    refine ⟨_, holds.boundaryFree rfl, ?_⟩
    simp only [Expr.analyzed_eq_usage, Expr.usage, Expr.crossing, Expr.map_typedUsages,
      Expr.names_typedUsages, List.map_map, Function.comp_def]
  case pin =>
    rintro id arrays body rfl
    refine ⟨_, holds.boundaryFree rfl, ?_⟩
    simp only [Expr.analyzed_eq_usage, Expr.usage, Expr.crossing, Expr.map_namedUsages,
      Expr.names_namedUsages, List.map_map, Function.comp_def]

/-- The scopes of a `let*` whose clauses hide each other, within the body of a loop. -/
theorem shadowing_scopes_recomputed :
    let clauses : List (Name × Expr) :=
      [("a", .literal (.int32 1)), ("b", .var "a"), ("a", .var "b")]
    let scope : Expr := .letSeq clauses (.lambda 1 [] (.set "a" (.var "c")))
    let root : Expr := .loop 0 "go" [] (.builtin .void) (.seq [.var "go", scope])
    [root][0]? = some root ∧ root.At [1, 0] scope ∧
      (ofRoots [root]).Recomputes scope [1, 0, 0] := by
  intro clauses scope root
  have inBody : Expr.At (.seq [.var "go", scope]) ([] ++ [1]) scope := .child rfl .self
  have inside : root.At ([1] ++ [0]) scope := .child rfl inBody
  have present : [root][0]? = some root := rfl
  exact ⟨present, inside, ofRoots_recomputes present inside⟩

end UsageTable

end ClassForge
