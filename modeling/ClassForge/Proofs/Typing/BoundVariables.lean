import ClassForge.Proofs.Code.LocalDemand
import Mathlib.Data.List.Perm.Subperm

/-!
# Variables that an expression binds

The names that an expression binds, listed as often as it binds them, bound what its code needs: the
checked form binds as many variables, and a function in it captures no more of them than there are,
together with the names that were in scope around the whole.
-/

namespace ClassForge

/-! ## Names that are bound -/

namespace Expr

/-- The names that a node binds. -/
def bound : Expr → List Name
  | letPar clauses _ | letSeq clauses _ => clauses.map (·.1)
  | letRec clauses _ => clauses.map (·.1.name)
  | loop _ name vars _ _ => name :: vars.map (·.1.name)
  | lambda _ params _ => params.map Param.name
  | tryCatch _ _ catches | tryFinally _ _ catches _ => catches.map (·.1.name)
  | pin _ arrays _ => arrays.map (·.1)
  | _ => []

/-- The names that an expression binds, as often as its nodes do. -/
def boundNames (expr : Expr) : List Name :=
  expr.preorder.flatMap bound

theorem boundNames_eq (expr : Expr) :
    expr.boundNames = expr.bound ++ expr.children.flatMap boundNames := by
  rw [boundNames, preorder_eq_cons, List.flatMap_cons, List.flatMap_assoc]
  rfl

theorem boundNames_subset {expr child : Expr} (isChild : child ∈ expr.children) :
    expr.bound ++ child.boundNames ⊆ expr.boundNames := by
  rw [boundNames_eq expr]
  refine List.append_subset.mpr ⟨List.subset_append_left _ _, fun name isBound => ?_⟩
  exact List.mem_append_right _ (List.mem_flatMap.mpr ⟨child, isChild, isBound⟩)

variable {context : TypeContext} {scope : Scope SourceTy} {expr : Expr} {core : Core}

/-- A node binds as many variables as what it was checked as. -/
theorem Checks.bindings (checked : expr.Checks context scope core) :
    core.bindings = expr.bound.length := by
  cases checked.elaborates with
  | operation isOperation _ _ acts =>
      cases acts <;> cases expr <;> first | rfl | cases isOperation
  | letPar clauses | letRec _ clauses | pin clauses | tryCatch _ clauses | tryFinally _ clauses =>
      simp [Core.bindings, bound, clauses.length_eq]
  | letSeq clauses => simp [Core.bindings, bound, clauses.length_eq]
  | loop clauses => simp [Core.bindings, bound, clauses.length_eq]
  | lambda => simp [Core.bindings, bound]
  | _ => rfl

/-- An expression binds as many variables as its checked form. -/
theorem Checks.bindingCount (checked : expr.Checks context scope core) :
    core.bindingCount = expr.boundNames.length := by
  induction expr using Expr.childInduction generalizing scope core with
  | _ expr ih =>
  have parts : ∀ {children : List Expr} {cores : List Core},
      (∀ child ∈ children, child ∈ expr.children) →
      List.Forall₂ (ChecksSomewhere context) children cores →
        Core.bindingCountAll cores = (children.flatMap boundNames).length := by
    intro children cores subset related
    induction related with
    | nil => rfl
    | cons first _ rest =>
        obtain ⟨isChild, others⟩ := List.forall_mem_cons.mp subset
        obtain ⟨_, first⟩ := first
        rw [Core.bindingCountAll_cons, List.flatMap_cons, List.length_append, ih _ isChild first,
          rest others]
  rw [Core.bindingCount_eq, boundNames_eq, List.length_append, checked.bindings,
    parts (fun _ => id) checked.parts]

end Expr

/-- What agrees for related members agrees for related lists. -/
theorem map_eq_of_forall₂ {α β γ : Type} {relation : α → β → Prop} {left : List α} {right : List β}
    (first : α → γ) (second : β → γ) (related : List.Forall₂ relation left right)
    (same : ∀ item other, relation item other → second other = first item) :
    right.map second = left.map first := by
  induction related with
  | nil => rfl
  | cons holds _ ih => rw [List.map_cons, List.map_cons, same _ _ holds, ih]

/-! ## Names in scope -/

/-- The names in scope are among some names. -/
def Scope.Within (scope : Scope SourceTy) (names : List Name) : Prop :=
  ∀ name type, scope.get? name = some type → name ∈ names

namespace Scope.Within

variable {scope : Scope SourceTy} {names : List Name}

theorem empty : (Scope.empty : Scope SourceTy).Within [] :=
  nofun

theorem bind (within : scope.Within names) (name : Name) (type : SourceTy) :
    (scope.bind name type).Within (names ++ [name]) := by
  intro other otherType found
  rw [Scope.get?_bind] at found
  split at found
  · rename_i same
    simp [same]
  · exact List.mem_append_left _ (within other otherType found)

theorem bindAll (within : scope.Within names) (bindings : List (Name × SourceTy)) :
    (scope.bindAll bindings).Within (names ++ bindings.map (·.1)) := by
  induction bindings generalizing scope names with
  | nil => simpa using within
  | cons binding bindings ih =>
      rw [Scope.bindAll_cons]
      simpa using ih (within.bind binding.1 binding.2)

theorem declare (within : scope.Within names) (bounds : List Bound) :
    (scope.declare bounds).Within (names ++ bounds.map Bound.name) := by
  have inner := within.bindAll (bounds.map fun bound => (bound.name, bound.type))
  rwa [List.map_map] at inner

theorem mono {more : List Name} (within : scope.Within names) (subset : names ⊆ more) :
    scope.Within more :=
  fun name type found => subset (within name type found)

end Scope.Within

theorem Expr.seqBounds_subset (body : Usage) (clauses : List (Name × Expr))
    (cores : List (Binder × Core)) :
    (Expr.seqBounds body clauses cores).map Bound.name ⊆ clauses.map (·.1) := by
  induction clauses generalizing cores with
  | nil => exact List.nil_subset _
  | cons clause clauses ih =>
      cases cores with
      | nil => exact List.nil_subset _
      | cons core cores => exact List.cons_subset_cons _ (ih cores)

namespace Checkpoint

variable {context : TypeContext} {point inner : Checkpoint} {names : List Name}

/-- A step of the checker brings into scope what the node binds. -/
theorem Enters.within (step : point.Enters inner) (accepted : point.Accepted context)
    (within : point.types.Within names) : inner.types.Within (names ++ point.expr.bound) := by
  obtain ⟨types, expr, core⟩ := point
  obtain ⟨innerTypes, child, part⟩ := inner
  obtain ⟨position, bounds, down, extended⟩ := step
  have named : bounds.map Bound.name ⊆ expr.bound := by
    dsimp only at down
    have elaborates := Expr.Checks.elaborates accepted
    cases down with
    | own | tryCatch | tryFinally | final => exact List.nil_subset _
    | letSeqClause =>
        rw [List.map_take]
        exact List.Subset.trans (List.take_subset _ _) (Expr.seqBounds_subset _ _ _)
    | letSeq => exact Expr.seqBounds_subset _ _ _
    | letRecClause | letRec | lambda | pin => simp [Expr.recBounds, Expr.bound, Function.comp_def]
    | tryCatchHandler source | tryFinallyHandler source =>
        refine List.cons_subset.mpr ⟨?_, List.nil_subset _⟩
        exact List.mem_map_of_mem (List.mem_of_getElem? source)
    | letPar =>
        cases elaborates with
        | operation isOperation => cases isOperation
        | letPar clauses =>
            have same := map_eq_of_forall₂ _ (fun core => core.1.name) clauses
              fun _ _ checked => congrArg Binder.name checked.binder
            rw [List.map_map]
            exact same ▸ List.Subset.refl _
    | loop =>
        cases elaborates with
        | operation isOperation => cases isOperation
        | loop clauses named =>
            have same := map_eq_of_forall₂ _ (fun core => core.1.name) clauses
              fun _ _ checked => congrArg Binder.name checked.binder
            rw [Expr.loopBounds, List.map_cons, List.map_map, named]
            exact List.cons_subset_cons _ (same ▸ List.Subset.refl _)
  dsimp only at extended ⊢
  rw [extended]
  exact (within.declare bounds).mono (List.append_subset.mpr
    ⟨List.subset_append_left _ _, fun name isBound => List.mem_append_right _ (named isBound)⟩)

/-- What is in scope at a node and what the node binds is in scope around the whole, or bound by
it. -/
theorem Reaches.within (reaches : point.Reaches inner) (accepted : point.Accepted context)
    (within : point.types.Within names) : ∃ outer, inner.types.Within outer ∧
      outer ++ inner.expr.boundNames ⊆ names ++ point.expr.boundNames := by
  induction reaches with
  | refl => exact ⟨names, within, List.Subset.refl _⟩
  | @tail middle inner early step ih =>
      obtain ⟨outer, middleWithin, subset⟩ := ih
      refine ⟨_, step.within (Reaches.accepted early accepted) middleWithin,
        List.Subset.trans ?_ subset⟩
      obtain ⟨_, _, down, -⟩ := step
      rw [List.append_assoc]
      exact List.append_subset.mpr ⟨List.subset_append_left _ _, fun _ isBound =>
        List.mem_append_right _ (Expr.boundNames_subset down.mem_children isBound)⟩

end Checkpoint

/-! ## Captured variables -/

theorem Usage.Sorted.names_nodup {usage : Usage} (sorted : usage.Sorted) : usage.names.Nodup := by
  rw [Usage.names, List.Nodup, List.pairwise_map]
  exact sorted.imp fun less same => absurd (same ▸ less) (lt_irrefl _)

section Captures

variable {context : TypeContext} {scope : Scope SourceTy} {expr : Expr} {node : Core} {host : Name}
variable {closure : Closure}

/-- Variables that cross a boundary are listed once. -/
theorem Expr.distinct_of_crosses {captures : List Param} {crossing : Usage}
    (sorted : crossing.Sorted) (crosses : List.Forall₂ (Crosses scope) crossing.names captures) :
    (captures.map Param.name).Nodup := by
  have same : captures.map Param.name = crossing.names :=
    (map_eq_of_forall₂ id _ crosses fun _ _ crosses => crosses.named).trans (List.map_id _)
  exact same ▸ sorted.names_nodup

/-- The variables that a function captures have different names, which are in scope around it or
bound by it. -/
theorem Expr.Checks.captures_names (checked : expr.Checks context scope node)
    (isClosure : node.closure? host = some closure) {names : List Name}
    (within : scope.Within names) : (closure.captures.map Param.name).Nodup ∧
      closure.captures.map Param.name ⊆ names ++ expr.bound := by
  have crosses : ∀ {inner : Scope SourceTy} {bound : List Name} {body : Expr} {captures : List Param},
      List.Forall₂ (Expr.Crosses inner) (Usage.moved bound body.usage).names captures →
        inner.Within (names ++ expr.bound) → (captures.map Param.name).Nodup ∧
          captures.map Param.name ⊆ names ++ expr.bound := by
    intro inner bound body captures crossing inScope
    refine ⟨distinct_of_crosses ((sorted_usage body).moved bound) crossing, fun name isName => ?_⟩
    obtain ⟨capture, isCapture, rfl⟩ := List.mem_map.mp isName
    obtain ⟨_, -, crosses⟩ := exists_related_left crossing isCapture
    exact inScope _ _ (crosses.named ▸ crosses.bound)
  cases checked.elaborates with
  | lambda _ crossing =>
      cases isClosure
      exact crosses crossing (within.mono (List.subset_append_left _ _))
  | loop _ named _ _ crossing =>
      cases isClosure
      refine crosses crossing fun name type found => ?_
      rw [Scope.get?_bind, named] at found
      split at found
      · rename_i same
        simp [Expr.bound, same]
      · exact List.mem_append_left _ (within name type found)
  | operation _ _ _ acts => cases acts <;> cases isClosure
  | _ => cases isClosure

end Captures

end ClassForge
