import ClassForge.Proofs.Code.Faults
import ClassForge.Proofs.Typing.Descent
import ClassForge.Proofs.Typing.Program

/-!
# Storage agrees with capture analysis

The checker and the code generator go down the same tree.  The checker carries
the types of the names in scope, the generator their storage.  `Agrees` is the
invariant between the two: what an expression uses is stored, with the type that
the checker sees, and in a cell if a boundary inside the expression uses it.
-/

namespace ClassForge

variable {bounds : List Bound} {entries cells : List (Name × Binding)} {types : Scope SourceTy}
variable {captures : List Param} {handler : Param × Expr}
variable {bounds : List Bound} {entries : List (Name × Binding)} {env : Scope Binding}
variable {body : Usage} {outer : Scope Binding}

/-- An entry stores a variable that comes into scope.  It holds a cell just when
the uses in the scope of the variable mark it as captured. -/
structure Bound.Stored (bound : Bound) (entry : Name × Binding) : Prop where
  named : entry.1 = bound.name
  typed : entry.2.type = bound.type
  boxed : entry.2.boxed = bound.uses.isCaptured bound.name

/-- An entry stores the variable of a binder as the binder says. -/
structure Binder.Stored (binder : Binder) (entry : Name × Binding) : Prop where
  named : entry.1 = binder.name
  typed : entry.2.type = binder.type
  boxed : entry.2.boxed = binder.captured

/-- An entry holds the cell of a captured variable. -/
structure Param.Shared (capture : Param) (entry : Name × Binding) : Prop where
  named : entry.1 = capture.name
  typed : entry.2.type = capture.type
  boxed : entry.2.boxed = true

/-- A variable as its scope marks it. -/
def Bound.binder (bound : Bound) : Binder :=
  Binder.of bound.uses bound.name bound.type

theorem Bound.stored_iff {bound : Bound} {entry : Name × Binding} :
    bound.Stored entry ↔ bound.binder.Stored entry :=
  ⟨fun stored => ⟨stored.named, stored.typed, stored.boxed⟩,
    fun stored => ⟨stored.named, stored.typed, stored.boxed⟩⟩

/-- What some code uses is stored with the types in scope, and in cells where a
boundary uses it. -/
def Agrees (types : Scope SourceTy) (usage : Usage) (env : Scope Binding) : Prop :=
  ∀ name ∈ usage.names, ∀ type, types.get? name = some type →
    ∃ binding, env.get? name = some binding ∧ binding.type = type ∧
      (usage.isCaptured name = true → binding.boxed = true)

namespace Agrees

variable {types : Scope SourceTy} {usage inner : Usage} {env : Scope Binding}

theorem within (agrees : Agrees types usage env) (within : inner.Within usage) :
    Agrees types inner env := by
  intro name free type bound
  obtain ⟨binding, stored, typed, boxed⟩ :=
    agrees name (within.names name free) type bound
  exact ⟨binding, stored, typed, fun captured => boxed (within.captured name captured)⟩

/-- A name that comes into scope is stored beside the others. -/
theorem bind {name : Name} {binding : Binding} (agrees : Agrees types (usage.without [name]) env)
    (boxed : usage.isCaptured name = true → binding.boxed = true) :
    Agrees (types.bind name binding.type) usage (env.bind name binding) := by
  intro other free type bound
  rw [Scope.get?_bind] at bound ⊢
  by_cases same : other = name
  · subst same
    simp only [if_true, Option.some.injEq] at bound ⊢
    exact ⟨binding, rfl, bound, boxed⟩
  · simp only [same, if_false] at bound ⊢
    obtain ⟨found, stored, typed, needed⟩ :=
      agrees other (Usage.mem_names_without.mpr ⟨free, by simpa using same⟩) type bound
    refine ⟨found, stored, typed, fun captured => needed ?_⟩
    rw [Usage.isCaptured_without, captured]
    simpa using same

theorem without_cons (usage : Usage) (name : Name) (names : List Name) :
    usage.without (name :: names) = (usage.without names).without [name] := by
  simp only [Usage.without, List.filter_filter]
  congr 2
  funext entry
  simp [Bool.not_or]

/-- Names that come into scope together are stored beside the others. -/
theorem declare
    (agrees : Agrees types (usage.without (bounds.map Bound.name)) env)
    (marked : ∀ bound ∈ bounds, usage.isCaptured bound.name = true →
      bound.uses.isCaptured bound.name = true)
    (stored : List.Forall₂ Bound.Stored bounds entries) :
    Agrees (types.declare bounds) usage (env.bindAll entries) := by
  induction stored generalizing types env with
  | nil =>
      refine agrees.within ⟨fun name free => ?_, fun name captured => ?_⟩
      · simpa using free
      · simpa [Usage.isCaptured_without] using captured
  | cons head tail ih =>
      rename_i bound entry bounds entries
      obtain ⟨name, binding⟩ := entry
      obtain rfl : name = bound.name := head.named
      rw [Scope.declare_cons, Scope.bindAll_cons, ← head.typed]
      refine ih ?_ (List.forall_mem_cons.mp marked).2
      refine Agrees.bind ?_ fun captured => ?_
      · rw [List.map_cons, without_cons] at agrees
        exact agrees
      · rw [Usage.isCaptured_without, Bool.and_eq_true] at captured
        rw [head.boxed]
        exact marked bound List.mem_cons_self captured.2

end Agrees

/-! ## Going down within a body -/

namespace Expr

variable {clauses : List (Name × Expr)} {cores : List (Binder × Core)} {types : Scope SourceTy}
    {entries : List (Name × Binding)}

theorem sorted_namedUsages (clauses : List (Name × Expr)) :
    ∀ clause ∈ namedUsages clauses, clause.2.Sorted := by
  intro clause member
  rw [namedUsages_eq_map, List.mem_map] at member
  obtain ⟨source, -, rfl⟩ := member
  exact sorted_usage _

/-- The whole uses what is used in place, with the same marks. -/
theorem usage_within_of_mem_inPlace {expr child : Expr}
    (member : child ∈ expr.inPlace) : child.usage.Within expr.usage := by
  by_cases plain : expr.isPlain = true
  · rw [usage_of_isPlain plain]
    refine usage_within_unionAll ?_
    cases expr <;> first | exact member | simp [isPlain, isOperation] at plain
  cases expr with
  | set name value =>
      obtain rfl := List.mem_singleton.mp member
      exact Usage.within_union_left (sorted_usage _) (Usage.sorted_assigned _)
  | letPar clauses body =>
      have inits := usage_within_unionAll member
      rw [inPlace, ← map_namedUsages] at inits
      refine inits.trans ?_
      exact Usage.within_union_left (Usage.sorted_unionAll _)
        ((sorted_usage body).without _)
  | loop id name vars ret body =>
      have inits := usage_within_unionAll member
      rw [inPlace, ← map_typedUsages] at inits
      refine inits.trans ?_
      exact Usage.within_union_left (Usage.sorted_unionAll _)
        (((sorted_usage body).moved _).without _)
  | pin id arrays body =>
      have inits := usage_within_unionAll member
      rw [inPlace, ← map_namedUsages] at inits
      refine inits.trans ?_
      exact Usage.within_union_left (Usage.sorted_unionAll _)
        ((sorted_usage body).moved _)
  | _ => simp_all [inPlace, isPlain, isOperation, children]

theorem length_seqBounds (body : Usage) (length : clauses.length = cores.length) :
    (seqBounds body clauses cores).length = clauses.length := by
  induction clauses generalizing cores with
  | nil => rfl
  | cons clause clauses ih =>
      cases cores with
      | nil => simp at length
      | cons core cores => rw [seqBounds, List.length_cons, ih (by simpa using length)]; rfl

/-- After some clauses of a `let*`, storage agrees with what the rest uses. -/
theorem agrees_sequential {body : Expr} {index : Nat} (length : clauses.length = cores.length)
    (agrees : Agrees types (Usage.sequential (namedUsages clauses) body.usage) env)
    (stored : List.Forall₂ Bound.Stored ((seqBounds body.usage clauses cores).take index) entries) :
    Agrees (types.declare ((seqBounds body.usage clauses cores).take index))
      (Usage.sequential (namedUsages (clauses.drop index)) body.usage)
      (env.bindAll entries) := by
  induction clauses generalizing cores types env index entries with
  | nil =>
      simp only [seqBounds, List.take_nil, List.forall₂_nil_left_iff] at stored
      subst stored
      simpa [seqBounds] using agrees
  | cons clause clauses ih =>
      obtain ⟨name, init⟩ := clause
      cases cores with
      | nil => simp at length
      | cons core cores =>
          cases index with
          | zero =>
              simp only [List.take_zero, List.forall₂_nil_left_iff] at stored
              subst stored
              simpa using agrees
          | succ index =>
              rw [seqBounds, List.take_succ_cons] at stored ⊢
              cases stored with
              | cons head tail =>
                  rename_i entry entries
                  obtain ⟨other, binding⟩ := entry
                  obtain rfl : other = name := head.named
                  rw [Scope.declare_cons, Scope.bindAll_cons, ← head.typed,
                    List.drop_succ_cons]
                  refine ih (by simpa using length) ?_ tail
                  refine Agrees.bind (agrees.within ?_) fun captured => ?_
                  · refine Usage.within_union_right (sorted_usage init) ?_
                    exact (Usage.sorted_sequential (sorted_namedUsages clauses)
                      (sorted_usage body)).without _
                  · rw [head.boxed]
                    exact captured

/-- Inside a `letrec`, storage agrees with what each of its parts uses. -/
theorem agrees_recursive {clauses : List (Param × Expr)} {body : Expr} {part : Usage}
    (within : part.Within ((Usage.unionAll ((typedUsages clauses).map (·.2))).union body.usage))
    (agrees : Agrees types (letRec clauses body).usage env)
    (stored : List.Forall₂ Bound.Stored (recBounds clauses body) entries) :
    Agrees (types.declare (recBounds clauses body)) part (env.bindAll entries) := by
  have names : (recBounds clauses body).map Bound.name =
      (typedUsages clauses).map (·.1) := by
    simp [recBounds, typedUsages_eq_map, Function.comp_def]
  refine Agrees.declare (agrees.within ?_) ?_ stored
  · rw [names]
    exact within.without _
  · intro bound member captured
    obtain ⟨source, -, rfl⟩ := List.mem_map.mp member
    exact within.captured _ captured

end Expr

/-- The part is lowered in the body of the whole. -/
def Position.InBody : Position → Prop
  | .own | .clause _ | .body => True
  | .moved | .handler _ | .final => False

namespace Descends

variable {context : TypeContext} {types : Scope SourceTy} {env : Scope Binding}
variable {position : Position} {bounds : List Bound}
variable {expr child : Expr} {core part : Core}

/-- When the names that come into scope are stored as their scopes say, storage
agrees with what the part uses. -/
theorem agrees (step : Descends position bounds expr core child part) (inBody : position.InBody)
    (checked : expr.Checks context types core) (agrees : Agrees types expr.usage env)
    (stored : List.Forall₂ Bound.Stored bounds entries) :
    Agrees (types.declare bounds) child.usage (env.bindAll entries) := by
  cases step with
  | own member =>
      cases stored
      have present := (List.of_mem_zip member).1
      exact agrees.within (Expr.usage_within_of_mem_inPlace present)
  | letPar =>
      rename_i clauses cores
      cases checked.elaborates with
      | operation operation => cases operation
      | letPar inits =>
          refine Agrees.declare (agrees.within ?_) ?_ stored
          · have names : (Expr.namedUsages clauses).map (·.1) =
                cores.map fun core => core.1.name := by
              rw [Expr.namedUsages_eq_map, List.map_map]
              refine List.forall₂_eq_eq_eq ▸ ?_
              rw [List.forall₂_map_left_iff, List.forall₂_map_right_iff]
              exact inits.imp fun clause core named => by simp [named.binder]
            rw [Expr.usage, Usage.parallel, names, List.map_map]
            exact Usage.within_union_right (Usage.sorted_unionAll _)
              ((Expr.sorted_usage child).without _)
          · intro bound member captured
            obtain ⟨source, -, rfl⟩ := List.mem_map.mp member
            exact captured
  | letSeqClause source =>
      cases checked.elaborates with
      | operation operation => cases operation
      | letSeq inits =>
          have rest := Expr.agrees_sequential inits.length_eq agrees stored
          rw [List.drop_eq_getElem?_toList_append, source] at rest
          refine rest.within ?_
          refine Usage.within_union_left (Expr.sorted_usage _) ?_
          exact (Usage.sorted_sequential (Expr.sorted_namedUsages _)
            (Expr.sorted_usage _)).without _
  | letSeq =>
      rename_i clauses cores
      cases checked.elaborates with
      | operation operation => cases operation
      | letSeq inits =>
          have all : (Expr.seqBounds child.usage clauses cores).take clauses.length =
              Expr.seqBounds child.usage clauses cores :=
            List.take_of_length_le
              (Nat.le_of_eq (Expr.length_seqBounds _ inits.length_eq))
          have rest := Expr.agrees_sequential inits.length_eq agrees (all.symm ▸ stored)
          rw [all, List.drop_length] at rest
          exact rest
  | letRecClause source =>
      have present := List.mem_map_of_mem (f := (·.2)) (List.mem_of_getElem? source)
      refine Expr.agrees_recursive ?_ agrees stored
      have inits := Expr.usage_within_unionAll present
      rw [← Expr.map_typedUsages] at inits
      exact inits.trans
        (Usage.within_union_left (Usage.sorted_unionAll _) (Expr.sorted_usage _))
  | letRec =>
      refine Expr.agrees_recursive ?_ agrees stored
      exact Usage.within_union_right (Usage.sorted_unionAll _) (Expr.sorted_usage _)
  | loop | lambda | tryCatch | tryCatchHandler | tryFinally | tryFinallyHandler
  | final | pin => exact inBody.elim

end Descends

/-! ## Storage that the generator sets up -/

namespace Core

open Lower

variable {context : LowerContext}

/-- The clauses of a `let` are stored as their binders say. -/
theorem lowerNamed_shape (clauses : List (Binder × Core)) (env : Scope Binding) :
    Ensures (fun _ => True) (lowerNamed context clauses env)
      (List.Forall₂ (fun clause entry => clause.1.Stored entry) clauses) := by
  induction clauses with
  | nil => exact .pure .nil
  | cons clause clauses ih =>
      obtain ⟨binder, init⟩ := clause
      refine (Ensures.any _).andThen fun _ => ?_
      refine (LowerContext.bindTop_shape _ _).bind fun binding stored => ?_
      refine ih.bind fun entries all => .pure ?_
      exact .cons ⟨rfl, stored.1, stored.2⟩ all

/-- The clauses of a `let*` are stored as their binders say. -/
theorem lowerClauses_shape (clauses : List (Binder × Core)) (env : Scope Binding) :
    Ensures (fun _ => True) (lowerClauses context clauses env) fun inner =>
      ∃ entries, inner = env.bindAll entries ∧
        List.Forall₂ (fun clause entry => clause.1.Stored entry) clauses entries := by
  induction clauses generalizing env with
  | nil => exact .pure ⟨[], rfl, .nil⟩
  | cons clause clauses ih =>
      obtain ⟨binder, init⟩ := clause
      refine (Ensures.any _).andThen fun _ => ?_
      refine (LowerContext.bindTop_shape _ _).bind fun binding stored => ?_
      refine (ih _).imp ?_
      rintro inner ⟨entries, rfl, all⟩
      refine ⟨(binder.name, binding) :: entries, ?_, .cons ⟨rfl, stored.1, stored.2⟩ all⟩
      rw [Scope.bindAll_cons]

/-- Storage for the clauses of a `letrec`, before they have their values. -/
def declareClauses (context : LowerContext) (clauses : List (Binder × Core)) :
    Lower (List (Name × Binding)) :=
  clauses.mapM fun (binder, _) => do
    let binding ← context.bindFresh binder.type binder.captured
    return (binder.name, binding)

theorem declareClauses_shape (clauses : List (Binder × Core)) :
    Ensures (fun _ => True) (declareClauses context clauses)
      (List.Forall₂ (fun clause entry => clause.1.Stored entry) clauses) := by
  refine Ensures.mapM fun clause _ => ?_
  refine (LowerContext.bindFresh_shape _ _).bind fun binding stored => ?_
  exact .pure ⟨rfl, stored.1, stored.2⟩

/-- The storage in which a part is lowered in the body of the whole. -/
inductive Extends (context : LowerContext) :
    Core → Position → Scope Binding → Scope Binding → Prop where
  | own {core : Core} {env : Scope Binding} : Extends context core .own env env
  | letPar {clauses : List (Binder × Core)} {body : Core} {env : Scope Binding}
      {entries : List (Name × Binding)} {before after : Emitter}
      (run : (lowerNamed context clauses env).run before = .ok (entries, after)) :
      Extends context (.letPar clauses body) .body env (env.bindAll entries)
  | letSeqClause {clauses : List (Binder × Core)} {body : Core} {index : Nat}
      {env inner : Scope Binding} {before after : Emitter}
      (run : (lowerClauses context (clauses.take index) env).run before =
        .ok (inner, after)) :
      Extends context (.letSeq clauses body) (.clause index) env inner
  | letSeq {clauses : List (Binder × Core)} {body : Core}
      {env inner : Scope Binding} {before after : Emitter}
      (run : (lowerClauses context clauses env).run before = .ok (inner, after)) :
      Extends context (.letSeq clauses body) .body env inner
  | letRecClause {clauses : List (Binder × Core)} {body : Core} {index : Nat}
      {env : Scope Binding} {entries : List (Name × Binding)}
      {before after : Emitter}
      (run : (declareClauses context clauses).run before = .ok (entries, after)) :
      Extends context (.letRec clauses body) (.clause index) env (env.bindAll entries)
  | letRec {clauses : List (Binder × Core)} {body : Core} {env : Scope Binding}
      {entries : List (Name × Binding)} {before after : Emitter}
      (run : (declareClauses context clauses).run before = .ok (entries, after)) :
      Extends context (.letRec clauses body) .body env (env.bindAll entries)

/-- The binders of checked clauses are the variables that come into scope. -/
def Marked (bounds : List Bound) (clauses : List (Binder × Core)) : Prop :=
  List.Forall₂ (fun bound clause => clause.1 = bound.binder) bounds clauses

theorem Marked.stored {clauses : List (Binder × Core)} (marked : Marked bounds clauses)
    (stored : List.Forall₂ (fun clause entry => clause.1.Stored entry) clauses entries) :
    List.Forall₂ Bound.Stored bounds entries := by
  induction marked generalizing entries with
  | nil =>
      cases stored
      exact .nil
  | cons same _ ih =>
      cases stored with
      | cons head tail => exact .cons (Bound.stored_iff.mpr (same ▸ head)) (ih tail)

theorem Marked.take {clauses : List (Binder × Core)} (marked : Marked bounds clauses)
    (index : Nat) :
    Marked (bounds.take index) (clauses.take index) :=
  List.forall₂_take index marked

end Core

namespace Expr

variable {context : TypeContext} {types : Scope SourceTy}
variable {cores : List (Binder × Core)}

theorem ChecksInTurn.marked {inner : Scope SourceTy} {clauses : List (Name × Expr)}
    (checked : ChecksInTurn context body types clauses cores inner) :
    Core.Marked (seqBounds body clauses cores) cores := by
  induction checked with
  | nil => exact .nil
  | cons first rest ih => exact .cons rfl ih

theorem marked_of_checksTyped {uses : Usage} {clauses : List (Param × Expr)}
    (checked : List.Forall₂ (ChecksTyped context types uses) clauses cores) :
    Core.Marked (clauses.map fun clause => ⟨clause.1.name, clause.1.type, uses⟩)
      cores := by
  unfold Core.Marked
  rw [List.forall₂_map_left_iff]
  exact checked.imp fun clause core typed => typed.binder

/-- Clauses that are marked by the uses of one scope. -/
theorem marked_of_captured {α : Type} {uses : Usage} {relation : α → Binder × Core → Prop}
    {clauses : List α} (checked : List.Forall₂ relation clauses cores)
    (captured : ∀ clause core, relation clause core →
      core.1.captured = uses.isCaptured core.1.name) :
    Core.Marked (cores.map fun core => ⟨core.1.name, core.1.type, uses⟩) cores := by
  induction checked with
  | nil => exact .nil
  | cons head _ ih =>
      refine .cons ?_ ih
      simp [Bound.binder, Binder.of, ← captured _ _ head]

end Expr

/-- Within a body, the names that come into scope on the way to a part are stored
as their scopes say. -/
theorem Descends.stored {context : TypeContext} {types : Scope SourceTy} {lowering : LowerContext}
    {inner : Scope Binding} {position : Position} {expr child : Expr} {core part : Core}
    (step : Descends position bounds expr core child part)
    (checked : expr.Checks context types core)
    (extends_ : core.Extends lowering position env inner) :
    ∃ entries, inner = env.bindAll entries ∧ List.Forall₂ Bound.Stored bounds entries := by
  cases extends_ with
  | own =>
      cases step
      exact ⟨[], rfl, .nil⟩
  | letPar run =>
      cases step
      have stored := (Core.lowerNamed_shape _ _).of_run run
      cases checked.elaborates with
      | operation operation => cases operation
      | letPar inits =>
          have marked := Expr.marked_of_captured inits fun clause core named => by
            rw [named.binder, Binder.of_captured, Binder.of_name]
          exact ⟨_, rfl, marked.stored stored⟩
  | letSeqClause run =>
      cases step
      obtain ⟨entries, rfl, stored⟩ := (Core.lowerClauses_shape _ _).of_run run
      cases checked.elaborates with
      | operation operation => cases operation
      | letSeq inits =>
          exact ⟨entries, rfl, (inits.marked.take _).stored stored⟩
  | letSeq run =>
      cases step
      obtain ⟨entries, rfl, stored⟩ := (Core.lowerClauses_shape _ _).of_run run
      cases checked.elaborates with
      | operation operation => cases operation
      | letSeq inits => exact ⟨entries, rfl, inits.marked.stored stored⟩
  | letRecClause run =>
      cases step
      have stored := (Core.declareClauses_shape _).of_run run
      cases checked.elaborates with
      | operation operation => cases operation
      | letRec extended inits =>
          exact ⟨_, rfl, (Expr.marked_of_checksTyped inits).stored stored⟩
  | letRec run =>
      cases step
      have stored := (Core.declareClauses_shape _).of_run run
      cases checked.elaborates with
      | operation operation => cases operation
      | letRec extended inits =>
          exact ⟨_, rfl, (Expr.marked_of_checksTyped inits).stored stored⟩

/-! ## Storage at the start of a body -/

namespace LowerContext

open Lower

variable {context : LowerContext}
variable {captures : List Param} {inner : Scope Binding}

/-- Parameters are stored as their binders say. -/
theorem bindParams_shape (params : List Binder) (first : Nat) (env : Scope Binding) :
    Ensures (fun _ => True) (context.bindParams params first env) fun inner =>
      ∃ entries, inner = env.bindAll entries ∧
        List.Forall₂ Binder.Stored params entries := by
  induction params generalizing first env with
  | nil => exact .pure ⟨[], rfl, .nil⟩
  | cons param params ih =>
      refine (Ensures.any _).andThen fun slot => ?_
      have rest : ∀ binding : Binding,
          binding.type = param.type ∧ binding.boxed = param.captured →
          Ensures (fun _ => True)
            (context.bindParams params (first + 1) (env.bind param.name binding))
            fun inner => ∃ entries, inner = env.bindAll entries ∧
              List.Forall₂ Binder.Stored (param :: params) entries := by
        intro binding stored
        refine (ih _ _).imp ?_
        rintro inner ⟨entries, rfl, all⟩
        refine ⟨(param.name, binding) :: entries, ?_, .cons ⟨rfl, stored.1, stored.2⟩ all⟩
        rw [Scope.bindAll_cons]
      cases captured : param.captured with
      | true =>
          refine (Ensures.any _).andThen fun _ => (newCell_shape _ _).bind ?_
          exact fun binding stored => rest binding (captured ▸ stored)
      | false =>
          exact rest { type := param.type, place := .argument slot, boxed := false }
            ⟨rfl, captured.symm⟩

/-- The cells that a block is given are bound to the captured variables. -/
theorem bindCells_shape {first : Nat} (done : bindCells captures first env = .ok inner) :
    ∃ entries, inner = env.bindAll entries ∧
      List.Forall₂ Param.Shared captures entries := by
  induction captures generalizing first env with
  | nil =>
      cases done
      exact ⟨[], rfl, .nil⟩
  | cons capture captures ih =>
      simp only [bindCells, bind_eq_ok] at done
      obtain ⟨slot, -, done⟩ := done
      obtain ⟨entries, rfl, all⟩ := ih done
      refine ⟨(capture.name, ⟨capture.type, .argument slot, true⟩) :: entries, ?_,
        .cons ⟨rfl, rfl, rfl⟩ all⟩
      rw [Scope.bindAll_cons]

/-- The cells in the fields of a closure are bound to the captured variables. -/
theorem bindFields_shape {closure : Closure}
    (done : context.bindFields closure captures env = .ok inner) :
    ∃ entries, inner = env.bindAll entries ∧
      List.Forall₂ Param.Shared captures entries := by
  induction captures generalizing env with
  | nil =>
      cases done
      exact ⟨[], rfl, .nil⟩
  | cons capture captures ih =>
      simp only [bindFields, bind_eq_ok] at done
      obtain ⟨field, -, done⟩ := done
      obtain ⟨entries, rfl, all⟩ := ih done
      refine ⟨(capture.name, ⟨capture.type, .receiverField field, true⟩) :: entries, ?_,
        .cons ⟨rfl, rfl, rfl⟩ all⟩
      rw [Scope.bindAll_cons]

/-- A handler that mentions its exception stores it as the binder says. -/
theorem bindException_shape (handler : CatchBinder) (env : Scope Binding) :
    Ensures (fun _ => True) (context.bindException handler env) fun inner =>
      ∃ entries, inner = env.bindAll entries ∧
        List.Forall₂ Binder.Stored handler.binder.toList entries := by
  unfold bindException
  cases handler.binder with
  | none => exact (Ensures.any _).andThen fun _ => .pure ⟨[], rfl, .nil⟩
  | some binder =>
      refine (bindTop_shape _ _).bind fun binding stored => .pure ?_
      exact ⟨[(binder.name, binding)], rfl, .cons ⟨rfl, stored.1, stored.2⟩ .nil⟩

/-- The pointers of a `pin` are stored as their binders say. -/
theorem bindPinned_shape (arrays : List (Binder × Core)) (first : Nat)
    (env : Scope Binding) :
    Ensures (fun _ => True) (context.bindPinned arrays first env) fun inner =>
      ∃ entries, inner = env.bindAll entries ∧
        List.Forall₂ (fun array entry =>
          ({ array.1 with type := .intPtr } : Binder).Stored entry) arrays entries := by
  induction arrays generalizing first env with
  | nil => exact .pure ⟨[], rfl, .nil⟩
  | cons array arrays ih =>
      obtain ⟨binder, array⟩ := array
      unfold bindPinned
      split
      · refine (Ensures.any _).andThen fun _ => (Ensures.any _).andThen fun _ => ?_
        refine (Ensures.any _).andThen fun _ => (Ensures.any _).andThen fun _ => ?_
        refine (Ensures.any _).andThen fun _ => ?_
        refine (bindTop_shape _ _).bind fun binding stored => (ih _ _).imp ?_
        rintro inner ⟨entries, rfl, all⟩
        refine ⟨(binder.name, binding) :: entries, ?_,
          .cons ⟨rfl, stored.1, stored.2⟩ all⟩
        rw [Scope.bindAll_cons]
      · exact .throw trivial

end LowerContext

namespace Core

/-- The handlers of a `try`. -/
def handlers : Core → List (CatchBinder × Core)
  | tryCatch _ _ _ catches | tryFinally _ _ _ catches _ => catches
  | _ => []

/-- Whether a node is a `try`. -/
def isTry : Core → Bool
  | tryCatch .. | tryFinally .. => true
  | _ => false

/-- The storage in which the code behind a boundary starts: `outer` holds the
cells of the captured variables, `env` also what the body itself binds. -/
inductive Opens (context : LowerContext) :
    Core → Position → (outer env : Scope Binding) → Prop where
  | closure {core : Core} {closure : Closure} {outer env : Scope Binding}
      {before after : Emitter}
      (isClosure : core.closure? context.host = some closure)
      (cells : context.bindFields closure closure.captures .empty = .ok outer)
      (run : (context.bindParams closure.params 1 outer).run before =
        .ok (env, after)) :
      Opens context core .moved outer env
  | guarded {core : Core} {outer : Scope Binding}
      (isTry : core.isTry = true)
      (cells : LowerContext.bindCells core.captures 0 .empty = .ok outer) :
      Opens context core .moved outer outer
  | handler {core : Core} {index : Nat} {handler : CatchBinder × Core}
      {outer env : Scope Binding} {before after : Emitter}
      (target : core.handlers[index]? = some handler)
      (cells : LowerContext.bindCells core.captures 0 .empty = .ok outer)
      (run : (context.bindException handler.1 outer).run before = .ok (env, after)) :
      Opens context core (.handler index) outer env
  | final {core : Core} {outer : Scope Binding}
      (cells : LowerContext.bindCells core.captures 0 .empty = .ok outer) :
      Opens context core .final outer outer
  | pin {id : NodeId} {captures : List Param} {arrays : List (Binder × Core)}
      {body : Core} {outer env : Scope Binding} {before after : Emitter}
      (cells : LowerContext.bindCells captures 0 .empty = .ok outer)
      (run : (context.bindPinned arrays captures.length outer).run before =
        .ok (env, after)) :
      Opens context (.pin id captures arrays body) .moved outer env

/-- Storage at the start of the code behind a boundary: `cells` for the captured
variables, then `entries` for what the body itself binds. -/
inductive Laid (host : Name) :
    Core → Position → (cells entries : List (Name × Binding)) → Prop where
  | closure {core : Core} {closure : Closure} {cells entries : List (Name × Binding)}
      (isClosure : core.closure? host = some closure)
      (shared : List.Forall₂ Param.Shared closure.captures cells)
      (stored : List.Forall₂ Binder.Stored closure.params entries) :
      Laid host core .moved cells entries
  | guarded {core : Core} {cells : List (Name × Binding)}
      (isTry : core.isTry = true)
      (shared : List.Forall₂ Param.Shared core.captures cells) :
      Laid host core .moved cells []
  | handler {core : Core} {index : Nat} {handler : CatchBinder × Core}
      {cells entries : List (Name × Binding)}
      (target : core.handlers[index]? = some handler)
      (shared : List.Forall₂ Param.Shared core.captures cells)
      (stored : List.Forall₂ Binder.Stored handler.1.binder.toList entries) :
      Laid host core (.handler index) cells entries
  | final {core : Core} {cells : List (Name × Binding)}
      (shared : List.Forall₂ Param.Shared core.captures cells) :
      Laid host core .final cells []
  | pin {id : NodeId} {captures : List Param} {arrays : List (Binder × Core)}
      {body : Core} {cells entries : List (Name × Binding)}
      (shared : List.Forall₂ Param.Shared captures cells)
      (stored : List.Forall₂ (fun array entry =>
        ({ array.1 with type := .intPtr } : Binder).Stored entry) arrays entries) :
      Laid host (.pin id captures arrays body) .moved cells entries

/-- The generator lays out storage at the start of a body. -/
theorem Opens.laid {context : LowerContext} {core : Core} {position : Position}
    (opens : core.Opens context position outer env) :
    ∃ cells entries, outer = Scope.empty.bindAll cells ∧
      env = outer.bindAll entries ∧ core.Laid context.host position cells entries := by
  cases opens with
  | closure isClosure found run =>
      obtain ⟨cells, rfl, shared⟩ := LowerContext.bindFields_shape found
      obtain ⟨entries, rfl, stored⟩ := (LowerContext.bindParams_shape _ _ _).of_run run
      exact ⟨cells, entries, rfl, rfl, .closure isClosure shared stored⟩
  | guarded isTry found =>
      obtain ⟨cells, rfl, shared⟩ := LowerContext.bindCells_shape found
      exact ⟨cells, [], rfl, rfl, .guarded isTry shared⟩
  | handler target found run =>
      obtain ⟨cells, rfl, shared⟩ := LowerContext.bindCells_shape found
      obtain ⟨entries, rfl, stored⟩ := (LowerContext.bindException_shape _ _).of_run run
      exact ⟨cells, entries, rfl, rfl, .handler target shared stored⟩
  | final found =>
      obtain ⟨cells, rfl, shared⟩ := LowerContext.bindCells_shape found
      exact ⟨cells, [], rfl, rfl, .final shared⟩
  | pin found run =>
      obtain ⟨cells, rfl, shared⟩ := LowerContext.bindCells_shape found
      obtain ⟨entries, rfl, stored⟩ := (LowerContext.bindPinned_shape _ _ _).of_run run
      exact ⟨cells, entries, rfl, rfl, .pin shared stored⟩

end Core

/-- The storage `inner` is `outer` with storage for some variables added, each
stored as its scope says. -/
def Allocates (bounds : List Bound) (outer inner : Scope Binding) : Prop :=
  ∃ entries, inner = outer.bindAll entries ∧
    ∀ entry ∈ entries, ∃ bound ∈ bounds, bound.Stored entry

/-- A captured variable is bound to its cell. -/
def Param.SharedIn (capture : Param) (env : Scope Binding) : Prop :=
  ∃ binding, env.get? capture.name = some binding ∧
    binding.type = capture.type ∧ binding.boxed = true

section Captures

variable {types : Scope SourceTy} {names : List Name} {captures : List Param}
variable {entries : List (Name × Binding)}

/-- Cells that are bound together are found by the names of their variables. -/
theorem sharedIn_bindAll (crossing : List.Forall₂ (Expr.Crosses types) names captures)
    (shared : List.Forall₂ Param.Shared captures entries) {name : Name} {type : SourceTy}
    (bound : types.get? name = some type)
    (present : name ∈ names ∨ Param.SharedIn ⟨name, type⟩ env) :
    Param.SharedIn ⟨name, type⟩ (env.bindAll entries) := by
  induction crossing generalizing entries env with
  | nil =>
      cases shared
      simpa using present
  | @cons _ capture _ _ crosses _ ih =>
      cases shared with
      | @cons _ entry _ _ head tail =>
          obtain ⟨key, binding⟩ := entry
          rw [Scope.bindAll_cons]
          refine ih tail ?_
          by_cases same : name = capture.name
          · refine Or.inr ⟨binding, ?_, ?_, head.boxed⟩
            · rw [Scope.get?_bind, if_pos (same.trans head.named.symm)]
            · have typed : some type = some capture.type := by
                rw [← bound, same, crosses.named, crosses.bound]
              exact head.typed.trans (Option.some.inj typed).symm
          · rcases present with listed | ⟨found, stored, good⟩
            · rcases List.mem_cons.mp listed with first | later
              · exact absurd (first.trans crosses.named.symm) same
              · exact Or.inl later
            · refine Or.inr ⟨found, ?_, good⟩
              have differs : name ≠ key := fun equal => same (equal.trans head.named)
              rw [Scope.get?_bind, if_neg differs]
              exact stored

/-- Storage of cells agrees with code that uses captured variables only. -/
theorem agrees_captures {usage : Usage}
    (crossing : List.Forall₂ (Expr.Crosses types) names captures)
    (shared : List.Forall₂ Param.Shared captures entries)
    (within : ∀ name ∈ usage.names, name ∈ names) :
    Agrees types usage (Scope.empty.bindAll entries) := by
  intro name free type bound
  obtain ⟨binding, stored, typed, boxed⟩ :=
    sharedIn_bindAll crossing shared bound (Or.inl (within name free))
  exact ⟨binding, stored, typed, fun _ => boxed⟩

end Captures

theorem Allocates.of_stored (stored : List.Forall₂ Bound.Stored bounds entries)
    (outer : Scope Binding) : Allocates bounds outer (outer.bindAll entries) := by
  refine ⟨entries, rfl, fun entry member => ?_⟩
  obtain ⟨index, found⟩ := List.mem_iff_getElem?.mp member
  obtain ⟨inRange, -⟩ := List.getElem?_eq_some_iff.mp found
  have inRange : index < bounds.length := stored.length_eq ▸ inRange
  have source : bounds[index]? = some bounds[index] := List.getElem?_eq_getElem inRange
  exact ⟨_, List.getElem_mem _, forall₂_getElem? stored source found⟩

/-- Parameters with the marks of their scope are stored as their scope says. -/
theorem stored_of_binders {uses : Usage} {params : List Param}
    (stored : List.Forall₂ Binder.Stored
      (params.map fun param => Binder.of uses param.name param.type) entries) :
    List.Forall₂ Bound.Stored
      (params.map fun param => ⟨param.name, param.type, uses⟩) entries := by
  rw [List.forall₂_map_left_iff] at stored ⊢
  exact stored.imp fun param entry holds => Bound.stored_iff.mpr holds

/-- Parameters and what is captured together store what a body uses. -/
theorem Agrees.moved (crossing : List.Forall₂ (Expr.Crosses types)
      (Usage.moved (bounds.map Bound.name) body).names captures)
    (shared : List.Forall₂ Param.Shared captures cells)
    (marked : ∀ bound ∈ bounds, bound.uses = body)
    (stored : List.Forall₂ Bound.Stored bounds entries) :
    Agrees (types.declare bounds) body ((Scope.empty.bindAll cells).bindAll entries) := by
  refine Agrees.declare (agrees_captures crossing shared ?_) ?_ stored
  · intro name free
    rw [Usage.mem_names_without] at free
    exact Usage.mem_names_moved.mpr free
  · intro bound member captured
    rw [marked bound member]
    exact captured

/-- Where a handler of a `try` starts, storage agrees with what it uses. -/
theorem opened_handler {context : TypeContext} {type : SourceTy} {names : List Name}
    {core : CatchBinder × Core} (crossing : List.Forall₂ (Expr.Crosses types) names captures)
    (shared : List.Forall₂ Param.Shared captures cells)
    (moves : ∀ name ∈ handler.2.usage.names, name ≠ handler.1.name → name ∈ names)
    (checked : Expr.ChecksHandler context types type handler core)
    (stored : List.Forall₂ Binder.Stored core.1.binder.toList entries) :
    Allocates [⟨handler.1.name, handler.1.type, handler.2.usage⟩]
        (Scope.empty.bindAll cells) ((Scope.empty.bindAll cells).bindAll entries) ∧
      Agrees (types.bind handler.1.name handler.1.type) handler.2.usage
        ((Scope.empty.bindAll cells).bindAll entries) := by
  have outer : Agrees types (handler.2.usage.without [handler.1.name])
      (Scope.empty.bindAll cells) := by
    refine agrees_captures crossing shared fun name free => ?_
    rw [Usage.mem_names_without, List.mem_singleton] at free
    exact moves name free.1 free.2
  rw [checked.binder] at stored
  cases mentioned : handler.2.usage.get? handler.1.name with
  | none =>
      -- A name that is not mentioned needs no storage.
      simp only [mentioned, Option.map_none, Option.toList_none,
        List.forall₂_nil_left_iff] at stored
      subst stored
      refine ⟨⟨[], rfl, by simp⟩, fun name free found bound => ?_⟩
      have differs : name ≠ handler.1.name := by
        rintro rfl
        rw [Usage.mem_names_iff_get?, mentioned] at free
        cases free
      rw [Scope.get?_bind, if_neg differs] at bound
      obtain ⟨binding, found, typed, boxed⟩ :=
        outer name (Usage.mem_names_without.mpr ⟨free, by simpa using differs⟩) _ bound
      refine ⟨binding, found, typed, fun captured => boxed ?_⟩
      rw [Usage.isCaptured_without, captured]
      simpa using differs
  | some use =>
      simp only [mentioned, Option.map_some, Option.toList_some] at stored
      have stored : List.Forall₂ Bound.Stored
          [⟨handler.1.name, handler.1.type, handler.2.usage⟩] entries := by
        cases stored with
        | cons head tail =>
            cases tail
            exact .cons (Bound.stored_iff.mpr head) .nil
      refine ⟨.of_stored stored _, ?_⟩
      refine Agrees.declare outer ?_ stored
      intro bound member captured
      obtain rfl := List.mem_singleton.mp member
      exact captured

namespace Expr

variable {context : TypeContext} {types : Scope SourceTy} {uses : Usage}
variable {cores : List (Binder × Core)}

theorem names_of_checksVars {vars : List (Param × Expr)}
    (checked : List.Forall₂ (ChecksTyped context types uses) vars cores) :
    (cores.map fun core => core.1.name) = vars.map fun clause => clause.1.name := by
  induction checked with
  | nil => rfl
  | cons head _ ih => rw [List.map_cons, List.map_cons, ih, head.binder, Binder.of_name]

theorem stored_of_checksArrays {arrays : List (Name × Expr)}
    (checked : List.Forall₂ (ChecksArray context types uses) arrays cores)
    (stored : List.Forall₂ (fun core entry =>
      ({ core.1 with type := .intPtr } : Binder).Stored entry) cores entries) :
    List.Forall₂ Bound.Stored
      (arrays.map fun array => ⟨array.1, .intPtr, uses⟩) entries := by
  induction checked generalizing entries with
  | nil =>
      cases stored
      exact .nil
  | cons array _ ih =>
      cases stored with
      | cons head tail =>
          rw [array.binder] at head
          exact .cons (Bound.stored_iff.mpr head) (ih tail)

end Expr

theorem Allocates.mono {more : List Bound} {inner : Scope Binding}
    (allocates : Allocates bounds outer inner) (subset : ∀ bound ∈ bounds, bound ∈ more) :
    Allocates more outer inner := by
  obtain ⟨entries, same, stored⟩ := allocates
  refine ⟨entries, same, fun entry member => ?_⟩
  obtain ⟨bound, present, holds⟩ := stored entry member
  exact ⟨bound, subset bound present, holds⟩

/-- The handlers of a `try` use from outside what the `try` moves. -/
theorem mem_names_guarded_of_handler {catches : List (Param × Expr)} {final : Option Usage}
    {index : Nat} (source : catches[index]? = some handler) (name : Name)
    (free : name ∈ handler.2.usage.names) (differs : name ≠ handler.1.name) :
    name ∈ (Usage.guarded body (Expr.typedUsages catches) final).names := by
  refine Usage.mem_names_guarded.mpr (Or.inl (Or.inr ?_))
  rw [Expr.typedUsages_eq_map]
  refine ⟨(handler.1.name, handler.2.usage), ?_, free, differs⟩
  exact List.mem_map_of_mem (List.mem_of_getElem? source)

/-- Where the code behind a boundary starts, what the body binds is stored as its
scope says, and storage agrees with what the part uses. -/
theorem Descends.opened {context : TypeContext} {host : Name} {position : Position}
    {expr child : Expr} {core part : Core} (step : Descends position bounds expr core child part)
    (checked : expr.Checks context types core) (laid : core.Laid host position cells entries) :
    Allocates bounds (Scope.empty.bindAll cells)
        ((Scope.empty.bindAll cells).bindAll entries) ∧
      Agrees (types.declare bounds) child.usage
        ((Scope.empty.bindAll cells).bindAll entries) := by
  cases laid with
  | closure isClosure shared stored =>
      cases step with
      | tryCatch | tryFinally | pin => cases isClosure
      | lambda =>
          cases isClosure
          cases checked.elaborates with
          | operation operation => cases operation
          | lambda _ crossing =>
              have stored := stored_of_binders stored
              refine ⟨.of_stored stored _, Agrees.moved ?_ shared ?_ stored⟩
              · rw [List.map_map]
                exact crossing
              · intro bound member
                obtain ⟨param, -, rfl⟩ := List.mem_map.mp member
                rfl
      | loop =>
          cases isClosure
          cases checked.elaborates with
          | operation operation => cases operation
          | loop vars named _ _ crossing =>
              rw [named] at crossing ⊢
              rw [Closure.ofLoop, List.forall₂_map_left_iff] at stored
              have marked := Expr.marked_of_captured vars fun clause core typed => by
                rw [typed.binder, Binder.of_captured, Binder.of_name]
              have stored := marked.stored stored
              refine ⟨(Allocates.of_stored stored _).mono
                fun bound member => List.mem_cons_of_mem _ member, ?_⟩
              rw [Expr.loopBounds, Scope.declare_cons]
              refine Agrees.moved ?_ shared ?_ stored
              · rw [List.map_map, Function.comp_def, Expr.names_of_checksVars vars]
                exact crossing
              · intro bound member
                obtain ⟨core, -, rfl⟩ := List.mem_map.mp member
                rfl
  | guarded isTry shared =>
      cases step with
      | lambda | loop | pin => cases isTry
      | tryCatch =>
          cases checked.elaborates with
          | operation operation => cases operation
          | tryCatch _ _ crossing =>
              refine ⟨⟨[], rfl, by simp⟩, agrees_captures crossing shared ?_⟩
              exact fun name free => Usage.mem_names_guarded.mpr (Or.inl (Or.inl free))
      | tryFinally =>
          cases checked.elaborates with
          | operation operation => cases operation
          | tryFinally _ _ _ crossing =>
              refine ⟨⟨[], rfl, by simp⟩, agrees_captures crossing shared ?_⟩
              exact fun name free => Usage.mem_names_guarded.mpr (Or.inl (Or.inl free))
  | handler target shared stored =>
      cases step with
      | tryCatchHandler source present =>
          obtain rfl := Option.some.inj (present.symm.trans target)
          cases checked.elaborates with
          | operation operation => cases operation
          | tryCatch _ handlers crossing =>
              have handler := forall₂_getElem? handlers source present
              exact opened_handler crossing shared
                (mem_names_guarded_of_handler source) handler stored
      | tryFinallyHandler source present =>
          obtain rfl := Option.some.inj (present.symm.trans target)
          cases checked.elaborates with
          | operation operation => cases operation
          | tryFinally _ handlers _ crossing =>
              have handler := forall₂_getElem? handlers source present
              exact opened_handler crossing shared
                (mem_names_guarded_of_handler source) handler stored
  | final shared =>
      cases step with
      | final =>
          cases checked.elaborates with
          | operation operation => cases operation
          | tryFinally _ _ _ crossing =>
              refine ⟨⟨[], rfl, by simp⟩, agrees_captures crossing shared ?_⟩
              intro name free
              exact Usage.mem_names_guarded.mpr (Or.inr ⟨_, rfl, free⟩)
  | pin shared stored =>
      cases step with
      | pin =>
          cases checked.elaborates with
          | operation operation => cases operation
          | pin arrays _ crossing =>
              have stored := Expr.stored_of_checksArrays arrays stored
              refine ⟨.of_stored stored _, Agrees.moved ?_ shared ?_ stored⟩
              · rw [List.map_map]
                exact crossing
              · intro bound member
                obtain ⟨array, -, rfl⟩ := List.mem_map.mp member
                rfl

end ClassForge
