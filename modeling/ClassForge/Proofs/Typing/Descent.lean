import ClassForge.Proofs.Typing.Elaboration
import Mathlib.Logic.Relation

/-!
# Going down a checked expression

The checker goes from an expression to its parts, and gives each part the types
of the names in its scope.  `Descends` lists the ways down, with the names that
come into scope on the way and how they are used there.  Every node of a checked
tree is reached this way, and is itself an accepted expression in the scope in
which it is reached.
-/

namespace ClassForge

/-- A name that comes into scope, with its type and the uses of all names in its
scope. -/
structure Bound where
  name : Name
  type : SourceTy
  uses : Usage

/-- The types in scope once some names have come into it. -/
def Scope.declare (types : Scope SourceTy) (bounds : List Bound) : Scope SourceTy :=
  types.bindAll (bounds.map fun bound => (bound.name, bound.type))

@[simp]
theorem Scope.declare_nil (types : Scope SourceTy) : types.declare [] = types :=
  rfl

theorem Scope.declare_cons (types : Scope SourceTy) (bound : Bound)
    (bounds : List Bound) :
    types.declare (bound :: bounds) = (types.bind bound.name bound.type).declare bounds :=
  Scope.bindAll_cons _ _ _ _

namespace Expr

/-- The parts that see the scope of the whole. -/
def inPlace : Expr → List Expr
  | set _ value => [value]
  | letPar clauses _ => clauses.map (·.2)
  | loop _ _ vars _ _ => vars.map (·.2)
  | pin _ arrays _ => arrays.map (·.2)
  | letSeq .. | letRec .. | lambda .. | tryCatch .. | tryFinally .. => []
  | expr => expr.children

/-- The names that the clauses of a `let*` bring into scope. -/
def seqBounds (body : Usage) :
    List (Name × Expr) → List (Binder × Core) → List Bound
  | (name, _) :: clauses, (_, core) :: cores =>
      ⟨name, core.type, Usage.sequential (namedUsages clauses) body⟩ ::
        seqBounds body clauses cores
  | _, _ => []

/-- The names that the clauses of a `letrec` bring into scope. -/
def recBounds (clauses : List (Param × Expr)) (body : Expr) : List Bound :=
  clauses.map fun clause =>
    ⟨clause.1.name, clause.1.type,
      (Usage.unionAll ((typedUsages clauses).map (·.2))).union body.usage⟩

/-- The names that a loop brings into scope: that of its function, then the loop
variables. -/
def loopBounds (function : Binder) (cores : List (Binder × Core))
    (crossing : Usage) (body : Expr) : List Bound :=
  ⟨function.name, function.type, crossing⟩ ::
    cores.map fun core => ⟨core.1.name, core.1.type, body.usage⟩

end Expr

namespace Core

/-- The parts that see the scope of the whole. -/
def inPlace : Core → List Core
  | literal _ | var _ _ => []
  | set _ value => [value]
  | seq items | logic _ items => items
  | when test body | .while test body => [test, body]
  | cond test yes no => [test, yes, no]
  | switch selector arms default => selector :: arms.map (·.2) ++ [default]
  | letPar clauses _ => clauses.map (·.2)
  | loop _ _ vars _ _ _ => vars.map (·.2)
  | invoke _ function args => function :: args
  | apply _ _ operands | member _ _ operands => operands
  | pin _ _ arrays _ => arrays.map (·.2)
  | letSeq .. | letRec .. | lambda .. | tryCatch .. | tryFinally .. => []

/-- The direct parts. -/
def parts : Core → List Core
  | letPar clauses body | letSeq clauses body | letRec clauses body =>
      clauses.map (·.2) ++ [body]
  | loop _ _ vars _ _ body => vars.map (·.2) ++ [body]
  | lambda _ _ _ body => [body]
  | tryCatch _ _ body catches => body :: catches.map (·.2)
  | tryFinally _ _ body catches final => body :: catches.map (·.2) ++ [final]
  | pin _ _ arrays body => arrays.map (·.2) ++ [body]
  | core => core.inPlace

end Core

/-- Where a part stands in the whole. -/
inductive Position where
  /-- It sees the scope of the whole. -/
  | own
  /-- It is a clause that sees names of other clauses. -/
  | clause (index : Nat)
  /-- It is what the clauses bind their names for. -/
  | body
  /-- It is what moves into a member of its own. -/
  | moved
  /-- It is a handler of what moves into a member of its own. -/
  | handler (index : Nat)
  /-- It runs after what moves into a member of its own. -/
  | final

/-- The ways from an expression and its checked form to those of a part, with
the names that come into scope. -/
inductive Descends : Position → List Bound → Expr → Core → Expr → Core → Prop where
  | own {expr child : Expr} {core part : Core}
      (member : (child, part) ∈ expr.inPlace.zip core.inPlace) :
      Descends .own [] expr core child part
  | letPar {clauses : List (Name × Expr)} {body : Expr}
      {cores : List (Binder × Core)} {bodyCore : Core} :
      Descends .body
        (cores.map fun core => ⟨core.1.name, core.1.type, body.usage⟩)
        (.letPar clauses body) (.letPar cores bodyCore) body bodyCore
  | letSeqClause {clauses : List (Name × Expr)} {body : Expr}
      {cores : List (Binder × Core)} {bodyCore : Core} {index : Nat}
      {clause : Name × Expr} {core : Binder × Core}
      (source : clauses[index]? = some clause)
      (checked : cores[index]? = some core) :
      Descends (.clause index) ((Expr.seqBounds body.usage clauses cores).take index)
        (.letSeq clauses body) (.letSeq cores bodyCore) clause.2 core.2
  | letSeq {clauses : List (Name × Expr)} {body : Expr}
      {cores : List (Binder × Core)} {bodyCore : Core} :
      Descends .body (Expr.seqBounds body.usage clauses cores)
        (.letSeq clauses body) (.letSeq cores bodyCore) body bodyCore
  | letRecClause {clauses : List (Param × Expr)} {body : Expr}
      {cores : List (Binder × Core)} {bodyCore : Core} {index : Nat}
      {clause : Param × Expr} {core : Binder × Core}
      (source : clauses[index]? = some clause)
      (checked : cores[index]? = some core) :
      Descends (.clause index) (Expr.recBounds clauses body)
        (.letRec clauses body) (.letRec cores bodyCore) clause.2 core.2
  | letRec {clauses : List (Param × Expr)} {body : Expr}
      {cores : List (Binder × Core)} {bodyCore : Core} :
      Descends .body (Expr.recBounds clauses body)
        (.letRec clauses body) (.letRec cores bodyCore) body bodyCore
  | loop {id : NodeId} {name : Name} {vars : List (Param × Expr)} {ret : SourceTy}
      {body : Expr} {function : Binder} {cores : List (Binder × Core)}
      {captures : List Param} {bodyCore : Core} :
      Descends .moved
        (Expr.loopBounds function cores
          (Usage.moved (vars.map fun clause => clause.1.name) body.usage) body)
        (.loop id name vars ret body)
        (.loop id function cores ret captures bodyCore) body bodyCore
  | lambda {id : NodeId} {params : List Param} {body : Expr}
      {binders : List Binder} {captures : List Param} {bodyCore : Core} :
      Descends .moved (params.map fun param => ⟨param.name, param.type, body.usage⟩)
        (.lambda id params body) (.lambda id binders captures bodyCore) body bodyCore
  | tryCatch {id : NodeId} {body : Expr} {catches : List (Param × Expr)}
      {captures : List Param} {bodyCore : Core}
      {catchCores : List (CatchBinder × Core)} :
      Descends .moved [] (.tryCatch id body catches)
        (.tryCatch id captures bodyCore catchCores) body bodyCore
  | tryCatchHandler {id : NodeId} {body : Expr} {catches : List (Param × Expr)}
      {captures : List Param} {bodyCore : Core}
      {catchCores : List (CatchBinder × Core)} {handler : Param × Expr}
      {core : CatchBinder × Core}
      {index : Nat}
      (source : catches[index]? = some handler)
      (target : catchCores[index]? = some core) :
      Descends (.handler index) [⟨handler.1.name, handler.1.type, handler.2.usage⟩]
        (.tryCatch id body catches)
        (.tryCatch id captures bodyCore catchCores) handler.2 core.2
  | tryFinally {id : NodeId} {body final : Expr} {catches : List (Param × Expr)}
      {captures : List Param} {bodyCore finalCore : Core}
      {catchCores : List (CatchBinder × Core)} :
      Descends .moved [] (.tryFinally id body catches final)
        (.tryFinally id captures bodyCore catchCores finalCore) body bodyCore
  | tryFinallyHandler {id : NodeId} {body final : Expr}
      {catches : List (Param × Expr)} {captures : List Param}
      {bodyCore finalCore : Core} {catchCores : List (CatchBinder × Core)}
      {handler : Param × Expr} {core : CatchBinder × Core}
      {index : Nat}
      (source : catches[index]? = some handler)
      (target : catchCores[index]? = some core) :
      Descends (.handler index) [⟨handler.1.name, handler.1.type, handler.2.usage⟩]
        (.tryFinally id body catches final)
        (.tryFinally id captures bodyCore catchCores finalCore) handler.2 core.2
  | final {id : NodeId} {body final : Expr} {catches : List (Param × Expr)}
      {captures : List Param} {bodyCore finalCore : Core}
      {catchCores : List (CatchBinder × Core)} :
      Descends .final [] (.tryFinally id body catches final)
        (.tryFinally id captures bodyCore catchCores finalCore) final finalCore
  | pin {id : NodeId} {arrays : List (Name × Expr)} {body : Expr}
      {captures : List Param} {cores : List (Binder × Core)} {bodyCore : Core} :
      Descends .moved (arrays.map fun array => ⟨array.1, .intPtr, body.usage⟩)
        (.pin id arrays body) (.pin id captures cores bodyCore) body bodyCore

/-! ## Parts are accepted in their scopes -/

namespace Expr

variable {context : TypeContext} {types : Scope SourceTy}
variable {clauses : List (Name × Expr)} {cores : List (Binder × Core)}

/-- What is in place is checked in the scope of the whole. -/
theorem Checks.inPlace {expr : Expr} {core : Core}
    (checked : Checks context types expr core) :
    List.Forall₂ (Checks context types) expr.inPlace core.inPlace := by
  cases checked.elaborates with
  | literal | var | letSeq | letRec | lambda | tryCatch | tryFinally => exact .nil
  | set _ value => exact .cons value .nil
  | seq items => exact items
  | logic items => exact items.imp fun _ _ item => item.1
  | when test _ body => exact .cons test (.cons body .nil)
  | cond test _ yes no => exact .cons test (.cons yes (.cons no .nil))
  | «while» test _ body => exact .cons test (.cons body .nil)
  | switch _ selector _ default arms =>
      refine List.rel_append (.cons selector ?_) (.cons default .nil)
      rw [List.forall₂_map_left_iff, List.forall₂_map_right_iff]
      exact arms.imp fun _ _ arm => arm.checked
  | letPar clauses _ =>
      rw [Expr.inPlace, Core.inPlace, List.forall₂_map_left_iff, List.forall₂_map_right_iff]
      exact clauses.imp fun _ _ clause => clause.checked
  | loop vars =>
      rw [Expr.inPlace, Core.inPlace, List.forall₂_map_left_iff, List.forall₂_map_right_iff]
      exact vars.imp fun _ _ clause => clause.checked
  | invoke function _ args => exact .cons function args
  | operation operation _ operands acts =>
      have children : expr.inPlace = expr.children := by
        cases expr <;> simp_all [isOperation, Expr.inPlace]
      rw [children]
      cases acts <;> exact operands
  | pin arrays =>
      rw [Expr.inPlace, Core.inPlace, List.forall₂_map_left_iff, List.forall₂_map_right_iff]
      exact arrays.imp fun _ _ array => array.checked

/-- The body of a `let*` sees the names of all clauses, and each clause sees those
before it. -/
theorem ChecksInTurn.scopes {body : Usage} {inner : Scope SourceTy}
    (checked : ChecksInTurn context body types clauses cores inner) :
    inner = types.declare (seqBounds body clauses cores) ∧
      ∀ index clause core, clauses[index]? = some clause → cores[index]? = some core →
        Checks context (types.declare ((seqBounds body clauses cores).take index))
          clause.2 core.2 := by
  induction checked with
  | nil => exact ⟨rfl, fun index clause core source => by simp at source⟩
  | cons first rest ih =>
      refine ⟨by rw [ih.1, seqBounds, Scope.declare_cons], ?_⟩
      intro index clause core source target
      cases index with
      | zero =>
          obtain rfl : _ = clause := by simpa using source
          obtain rfl : _ = core := by simpa using target
          exact first
      | succ index =>
          rw [seqBounds, List.take_succ_cons, Scope.declare_cons]
          exact ih.2 index clause core (by simpa using source) (by simpa using target)

theorem ChecksInTurn.length_eq {body : Usage} {inner : Scope SourceTy}
    (checked : ChecksInTurn context body types clauses cores inner) :
    clauses.length = cores.length := by
  induction checked with
  | nil => rfl
  | cons _ _ ih => rw [List.length_cons, List.length_cons, ih]

end Expr

/-- Members at the same place are related. -/
theorem forall₂_getElem? {α β : Type} {relation : α → β → Prop} {left : List α} {right : List β}
    (all : List.Forall₂ relation left right) {index : Nat} {first : α} {second : β}
    (source : left[index]? = some first)
    (target : right[index]? = some second) : relation first second := by
  induction all generalizing index with
  | nil => simp at source
  | cons head tail ih =>
      cases index with
      | zero =>
          obtain rfl : _ = first := by simpa using source
          obtain rfl : _ = second := by simpa using target
          exact head
      | succ index => exact ih (by simpa using source) (by simpa using target)

/-- A member of the second of two lists of one length stands beside a member of
the first. -/
theorem exists_mem_zip {α β : Type} {left : List α} {right : List β}
    (length : left.length = right.length) {second : β}
    (member : second ∈ right) : ∃ first, (first, second) ∈ left.zip right := by
  rw [← List.map_snd_zip (Nat.le_of_eq length.symm)] at member
  obtain ⟨⟨first, _⟩, paired, rfl⟩ := List.mem_map.mp member
  exact ⟨first, paired⟩

theorem exists_getElem?_pair {α β γ : Type} {left : List α} {right : List (β × γ)}
    (length : left.length = right.length) {value : γ}
    (member : value ∈ right.map (·.2)) :
    ∃ (index : Nat) (first : α) (second : β × γ), left[index]? = some first ∧
      right[index]? = some second ∧ second.2 = value := by
  obtain ⟨second, present, rfl⟩ := List.mem_map.mp member
  obtain ⟨index, found⟩ := List.mem_iff_getElem?.mp present
  obtain ⟨bound, -⟩ := List.getElem?_eq_some_iff.mp found
  exact ⟨index, left[index], second, List.getElem?_eq_getElem (length ▸ bound), found, rfl⟩

namespace Descends

variable {context : TypeContext} {types : Scope SourceTy}
variable {position : Position} {bounds : List Bound}
variable {expr child : Expr} {core part : Core}

variable (step : Descends position bounds expr core child part)
include step

/-- A part of an accepted expression is accepted in the scope with the names that
come into it on the way down. -/
theorem checks (checked : expr.Checks context types core) :
    child.Checks context (types.declare bounds) part := by
  cases step with
  | own member => exact List.forall₂_zip checked.inPlace member
  | letPar =>
      cases checked.elaborates with
      | letPar _ body => simpa [Scope.declare, Function.comp_def] using body
      | operation operation => cases operation
  | letSeqClause source target =>
      cases checked.elaborates with
      | letSeq clauses => exact clauses.scopes.2 _ _ _ source target
      | operation operation => cases operation
  | letSeq =>
      cases checked.elaborates with
      | letSeq clauses body => exact clauses.scopes.1 ▸ body
      | operation operation => cases operation
  | letRecClause source target =>
      cases checked.elaborates with
      | letRec extended clauses =>
          have clause := (forall₂_getElem? clauses source target).checked
          simpa [Scope.declare, Expr.recBounds, Function.comp_def, extended] using clause
      | operation operation => cases operation
  | letRec =>
      cases checked.elaborates with
      | letRec extended _ body =>
          simpa [Scope.declare, Expr.recBounds, Function.comp_def, extended] using body
      | operation operation => cases operation
  | loop =>
      cases checked.elaborates with
      | loop _ named body =>
          subst named
          rw [Expr.loopBounds, Scope.declare_cons]
          simpa [Scope.declare, Function.comp_def] using body
      | operation operation => cases operation
  | lambda =>
      cases checked.elaborates with
      | lambda body => simpa [Scope.declare, Function.comp_def] using body
      | operation operation => cases operation
  | tryCatch =>
      cases checked.elaborates with
      | tryCatch body => exact body
      | operation operation => cases operation
  | tryCatchHandler source target =>
      cases checked.elaborates with
      | tryCatch _ handlers => exact (forall₂_getElem? handlers source target).checked
      | operation operation => cases operation
  | tryFinally =>
      cases checked.elaborates with
      | tryFinally body => exact body
      | operation operation => cases operation
  | tryFinallyHandler source target =>
      cases checked.elaborates with
      | tryFinally _ handlers => exact (forall₂_getElem? handlers source target).checked
      | operation operation => cases operation
  | final =>
      cases checked.elaborates with
      | tryFinally _ _ final => exact final
      | operation operation => cases operation
  | pin =>
      cases checked.elaborates with
      | pin _ body => simpa [Scope.declare, Function.comp_def] using body
      | operation operation => cases operation

/-- A way down leads to a direct subexpression. -/
theorem mem_children :
    child ∈ expr.children := by
  cases step with
  | own member =>
      have present := (List.of_mem_zip member).1
      cases expr <;> simp_all [Expr.inPlace, Expr.children]
  | letSeqClause source =>
      have present := List.mem_of_getElem? source
      exact List.mem_append_left _ (List.mem_map_of_mem present)
  | letRecClause source =>
      have present := List.mem_of_getElem? source
      exact List.mem_append_left _ (List.mem_map_of_mem present)
  | tryCatchHandler source =>
      have present := List.mem_of_getElem? source
      exact List.mem_cons_of_mem _ (List.mem_map_of_mem present)
  | tryFinallyHandler source =>
      have present := List.mem_of_getElem? source
      exact List.mem_append_left _ (List.mem_cons_of_mem _ (List.mem_map_of_mem present))
  | letPar | letSeq | letRec | loop | lambda | tryCatch | tryFinally | final | pin =>
      simp [Expr.children]

/-- A way down leads to a direct part of the checked form. -/
theorem mem_parts :
    part ∈ core.parts := by
  cases step with
  | own member =>
      have present := (List.of_mem_zip member).2
      cases core <;> simp_all [Core.inPlace, Core.parts]
  | letSeqClause _ target =>
      have present := List.mem_of_getElem? target
      exact List.mem_append_left _ (List.mem_map_of_mem present)
  | letRecClause _ target =>
      have present := List.mem_of_getElem? target
      exact List.mem_append_left _ (List.mem_map_of_mem present)
  | tryCatchHandler _ target =>
      have present := List.mem_of_getElem? target
      exact List.mem_cons_of_mem _ (List.mem_map_of_mem present)
  | tryFinallyHandler _ target =>
      have present := List.mem_of_getElem? target
      exact List.mem_append_left _ (List.mem_cons_of_mem _ (List.mem_map_of_mem present))
  | letPar | letSeq | letRec | loop | lambda | tryCatch | tryFinally | final | pin =>
      simp [Core.parts]

end Descends

/-! ## Every node is reached -/

namespace Core

theorem preorderAll_eq_flatMap (items : List Core) :
    preorderAll items = items.flatMap preorder := by
  induction items with
  | nil => rfl
  | cons item items ih => rw [preorderAll, ih, List.flatMap_cons]

theorem preorderArms_eq_flatMap (arms : List (List UInt32 × Core)) :
    preorderArms arms = (arms.map (·.2)).flatMap preorder := by
  induction arms with
  | nil => rfl
  | cons arm arms ih => rw [preorderArms, ih, List.map_cons, List.flatMap_cons]

theorem preorderBound_eq_flatMap (clauses : List (Binder × Core)) :
    preorderBound clauses = (clauses.map (·.2)).flatMap preorder := by
  induction clauses with
  | nil => rfl
  | cons clause clauses ih => rw [preorderBound, ih, List.map_cons, List.flatMap_cons]

theorem preorderCatches_eq_flatMap (catches : List (CatchBinder × Core)) :
    preorderCatches catches = (catches.map (·.2)).flatMap preorder := by
  induction catches with
  | nil => rfl
  | cons handler catches ih =>
      rw [preorderCatches, ih, List.map_cons, List.flatMap_cons]

/-- The nodes of a tree are its root and the nodes of its parts. -/
theorem preorder_eq_cons (core : Core) :
    core.preorder = core :: core.parts.flatMap preorder := by
  cases core <;>
    simp [preorder, parts, inPlace, preorderAll_eq_flatMap, preorderArms_eq_flatMap,
      preorderBound_eq_flatMap, preorderCatches_eq_flatMap]

theorem mem_preorder_self (core : Core) : core ∈ core.preorder := by
  rw [preorder_eq_cons]
  exact List.mem_cons_self

/-- The nodes of a part are nodes of the whole. -/
theorem mem_preorder_of_mem_parts {core part node : Core} (isPart : part ∈ core.parts)
    (member : node ∈ part.preorder) : node ∈ core.preorder := by
  rw [preorder_eq_cons]
  exact List.mem_cons_of_mem _ (List.mem_flatMap.mpr ⟨part, isPart, member⟩)

end Core

theorem Descends.preorder_subset {position : Position} {bounds : List Bound} {expr child : Expr}
    {core part : Core}
    (step : Descends position bounds expr core child part) : part.preorder ⊆ core.preorder :=
  fun _ member => Core.mem_preorder_of_mem_parts step.mem_parts member

/-- A place that the checker comes to: an expression with the types of the names
in scope, and what it is checked as. -/
structure Checkpoint where
  types : Scope SourceTy
  expr : Expr
  core : Core

namespace Checkpoint

/-- The expression is accepted as its checked form. -/
def Accepted (context : TypeContext) (point : Checkpoint) : Prop :=
  point.expr.Checks context point.types point.core

/-- The checker goes from an expression to one of its parts. -/
def Enters (whole part : Checkpoint) : Prop :=
  ∃ position bounds,
    Descends position bounds whole.expr whole.core part.expr part.core ∧
      part.types = whole.types.declare bounds

/-- The checker comes from one expression to another, part by part. -/
def Reaches : Checkpoint → Checkpoint → Prop :=
  Relation.ReflTransGen Enters

variable {context : TypeContext} {point inner : Checkpoint}

theorem Enters.accepted (step : point.Enters inner) (accepted : point.Accepted context) :
    inner.Accepted context := by
  obtain ⟨position, bounds, down, extended⟩ := step
  unfold Accepted
  rw [extended]
  exact down.checks accepted

theorem Reaches.accepted (reaches : point.Reaches inner)
    (accepted : point.Accepted context) : inner.Accepted context := by
  induction reaches with
  | refl => exact accepted
  | tail _ step ih => exact step.accepted ih

theorem Reaches.preorder_subset (reaches : point.Reaches inner) :
    inner.core.preorder ⊆ point.core.preorder := by
  induction reaches with
  | refl => exact List.Subset.refl _
  | tail _ step ih =>
      obtain ⟨position, bounds, down, -⟩ := step
      exact List.Subset.trans down.preorder_subset ih

/-- There is a way down to what is in place. -/
theorem Accepted.exists_enters_own (accepted : point.Accepted context) {part : Core}
    (member : part ∈ point.core.inPlace) :
    ∃ inner, point.Enters inner ∧ inner.core = part := by
  obtain ⟨child, paired⟩ :=
    exists_mem_zip (Expr.Checks.inPlace accepted).length_eq member
  exact ⟨⟨point.types, child, part⟩, ⟨.own, [], .own paired, rfl⟩, rfl⟩

/-- There is a way down to every direct part. -/
theorem Accepted.exists_enters (accepted : point.Accepted context) {part : Core}
    (member : part ∈ point.core.parts) :
    ∃ inner, point.Enters inner ∧ inner.core = part := by
  obtain ⟨types, expr, core⟩ := point
  have enters : ∀ {position bounds child},
      Descends position bounds expr core child part →
        ∃ inner, Enters ⟨types, expr, core⟩ inner ∧ inner.core = part :=
    fun down => ⟨⟨types.declare _, _, part⟩, ⟨_, _, down, rfl⟩, rfl⟩
  have own : part ∈ core.inPlace →
      ∃ inner, Enters ⟨types, expr, core⟩ inner ∧ inner.core = part :=
    fun member => accepted.exists_enters_own member
  cases Expr.Checks.elaborates accepted with
  | letPar clauses =>
      rcases List.mem_append.mp member with inClauses | isBody
      · exact own inClauses
      · obtain rfl := List.mem_singleton.mp isBody
        exact enters .letPar
  | letSeq clauses =>
      rcases List.mem_append.mp member with inClauses | isBody
      · obtain ⟨index, clause, core, source, target, rfl⟩ :=
          exists_getElem?_pair clauses.length_eq inClauses
        exact enters (.letSeqClause source target)
      · obtain rfl := List.mem_singleton.mp isBody
        exact enters .letSeq
  | letRec extended clauses =>
      rcases List.mem_append.mp member with inClauses | isBody
      · obtain ⟨index, clause, core, source, target, rfl⟩ :=
          exists_getElem?_pair clauses.length_eq inClauses
        exact enters (.letRecClause source target)
      · obtain rfl := List.mem_singleton.mp isBody
        exact enters .letRec
  | loop vars =>
      rcases List.mem_append.mp member with inVars | isBody
      · exact own inVars
      · obtain rfl := List.mem_singleton.mp isBody
        exact enters .loop
  | lambda =>
      obtain rfl := List.mem_singleton.mp member
      exact enters .lambda
  | tryCatch body handlers =>
      rcases List.mem_cons.mp member with rfl | inHandlers
      · exact enters .tryCatch
      · obtain ⟨index, handler, core, source, target, rfl⟩ :=
          exists_getElem?_pair handlers.length_eq inHandlers
        exact enters (.tryCatchHandler source target)
  | tryFinally body handlers =>
      rcases List.mem_append.mp member with inFront | isFinal
      · rcases List.mem_cons.mp inFront with rfl | inHandlers
        · exact enters .tryFinally
        · obtain ⟨index, handler, core, source, target, rfl⟩ :=
            exists_getElem?_pair handlers.length_eq inHandlers
          exact enters (.tryFinallyHandler source target)
      · obtain rfl := List.mem_singleton.mp isFinal
        exact enters .final
  | pin arrays =>
      rcases List.mem_append.mp member with inArrays | isBody
      · exact own inArrays
      · obtain rfl := List.mem_singleton.mp isBody
        exact enters .pin
  | operation _ _ _ acts =>
      cases acts <;> exact own member
  | literal | var | set | seq | logic | when | cond | «while» | switch | invoke =>
      exact own member

/-- Every node of a checked tree is reached. -/
theorem Accepted.exists_reaches (accepted : point.Accepted context) {node : Core}
    (member : node ∈ point.core.preorder) :
    ∃ inner, point.Reaches inner ∧ inner.core = node := by
  obtain ⟨types, expr, core⟩ := point
  induction expr using Expr.childInduction generalizing types core with
  | step expr ih =>
      rw [Core.preorder_eq_cons, List.mem_cons, List.mem_flatMap] at member
      rcases member with rfl | ⟨part, isPart, member⟩
      · exact ⟨_, .refl, rfl⟩
      obtain ⟨next, step, rfl⟩ := accepted.exists_enters isPart
      have isChild : next.expr ∈ expr.children := by
        obtain ⟨_, _, down, -⟩ := step
        exact down.mem_children
      obtain ⟨inner, reaches, found⟩ :=
        ih next.expr isChild next.types next.core (step.accepted accepted) member
      exact ⟨inner, .head step reaches, found⟩

end Checkpoint

end ClassForge
