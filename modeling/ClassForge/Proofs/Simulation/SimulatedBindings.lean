import ClassForge.Proofs.Simulation.SimulatedNodes

/-!
# Bindings that simulate

The clauses of a `let` and a `let*` declare variables, one after the other, and the body runs with
them.  Afterwards they are forgotten.
-/

namespace ClassForge

open Machine

/-! ## Bodies of bindings -/

section Inside

variable {linkage : Linkage} {context : LowerContext} {seat : Seat} {types inner : Scope SourceTy}
variable {env : Scope Location} {bindings : Scope Binding} {before middle after : Emitter}
variable {now later : Situation}

/-- Names are still known after more variables have been declared. -/
theorem Situation.Ready.leads (ready : now.Ready linkage context seat types env bindings before)
    (leads : now.Leads linkage later) (below : later.contents.Below after.locals.size) :
    later.Ready linkage context seat types env bindings after where
  admits := ready.admits
  isMethod := ready.isMethod
  sound := leads.sound ready.sound.unpinned below
  stands := leads.stands ready.stands

/-- The body of a binding runs when the variables have been declared. -/
theorem Core.Simulates.inside {limit : Nat} {core : Core} {meaning : Scope Location → Evaluation Datum}
    {tail : Bool} {datum : Datum} {data : List Datum} {stack : List Value} {post : Config → Prop}
    (simulates : core.Simulates linkage limit inner meaning) (sound : now.Sound linkage before)
    (leads : now.Leads linkage later)
    (ready : later.Ready linkage context seat inner env bindings middle)
    (written : (core.lower context bindings tail).Writes middle () after)
    (placed : after.PlacedIn now.frame.body)
    (evaluated : (meaning env).run later.memory.data = some (datum, data))
    (falls : ∀ final values, now.Resumes linkage final data →
      Pushed linkage final.memory core.type datum values →
        Arrives linkage.image limit (final.config seat after.position (values ++ stack)) post)
    (ends : tail = true → ∀ value memory, now.Ends linkage core.type datum data value memory →
      Arrives linkage.image limit ⟨.deliver value, seat.levels, seat.room, memory.store⟩ post) :
    Arrives linkage.image limit (later.config seat middle.position stack) post :=
  simulates ready written (leads.body ▸ placed) evaluated
    (fun final values resumes pushed =>
      falls (final.limitTo now) values (leads.resumes sound resumes) pushed)
    fun isTail value memory isEnd => ends isTail value memory (leads.ends isEnd)

end Inside

namespace Core

variable {linkage : Linkage} {limit : Nat} {eval : Expr → Scope Location → Evaluation Datum}

/-- The code of the initializer of a clause simulates it. -/
structure SimulatesClause (linkage : Linkage) (limit : Nat) (types : Scope SourceTy)
    (eval : Expr → Scope Location → Evaluation Datum) (clause : Name × Expr)
    (core : Binder × Core) : Prop where
  name : core.1.name = clause.1
  type : core.1.type = core.2.type
  isValue : core.1.type.isVoid = false
  simulates : core.2.Simulates linkage limit types (eval clause.2)

section Clauses

variable {context : LowerContext} {seat : Seat} {types : Scope SourceTy} {env : Scope Location}
variable {bindings : Scope Binding} {before after : Emitter} {now : Situation} {data : List Datum}
variable {stack : List Value} {post : Config → Prop}
variable {clauses : List (Name × Expr)} {cores : List (Binder × Core)}

/-- The initializer of a clause runs, and its value becomes that of a new variable. -/
theorem SimulatesClause.arrives_bindTop {clause : Name × Expr} {core : Binder × Core}
    {binding : Binding} {datum : Datum} {middle : Emitter}
    (simulates : SimulatesClause linkage limit types eval clause core)
    (ready : now.Ready linkage context seat types env bindings before)
    (written : (core.2.lower context bindings false).Writes before () middle)
    (binds : (context.bindTop core.1.type core.1.captured).Writes middle binding after)
    (placed : after.PlacedIn now.frame.body)
    (evaluated : (eval clause.2 env).run now.memory.data = some (datum, data))
    (rest : ∀ later next, now.Resumes linkage later data →
      later.Declares linkage after next binding core.1.type datum →
        Arrives linkage.image limit (next.config seat after.position stack) post) :
    Arrives linkage.image limit (now.config seat before.position stack) post := by
  have isPlaced := placed.of_precedes (context.bindTop_adds _ _ _ _ _ binds)
  have isValue := simulates.type ▸ simulates.isValue
  refine Simulates.operand simulates.simulates isValue ready written isPlaced evaluated
    fun later value resumes represents => ?_
  have sound := resumes.sound ready.sound (core.2.lower_adds _ _ _ _ _ written).locals
  exact Situation.arrives_bindTop ready.admits sound simulates.isValue (simulates.type ▸ represents)
    binds (resumes.body ▸ placed) fun next declares => rest later next resumes declares

/-! ## Clauses that all see the same names -/

theorem arrives_lowerNamed {bounds : List (Name × Binding)} {locations : List (Name × Location)}
    (simulate : List.Forall₂ (SimulatesClause linkage limit types eval) clauses cores)
    (ready : now.Ready linkage context seat types env bindings before)
    (written : (lowerNamed context cores bindings).Writes before bounds after)
    (placed : after.PlacedIn now.frame.body)
    (evaluated : (Expr.evalNamed eval clauses env).run now.memory.data = some (locations, data))
    (rest : ∀ later, now.Leads linkage later → later.contents.Below after.locals.size →
      later.memory.data = data →
      bounds.map (fun bound => (bound.1, bound.2.type)) =
        cores.map (fun core => (core.1.name, core.1.type)) →
      List.Forall₂ (fun bound located => located.1 = bound.1 ∧
        bound.2.KeptAt later.memory.world later.contents located.2) bounds locations →
      Arrives linkage.image limit (later.config seat after.position stack) post) :
    Arrives linkage.image limit (now.config seat before.position stack) post := by
  induction simulate generalizing now before bounds locations with
  | nil =>
      obtain ⟨rfl, rfl⟩ := Evaluation.run_pure_eq_some.mp evaluated
      obtain ⟨rfl, rfl⟩ := Lower.writes_pure.mp written
      exact rest now ready.sound.leads ready.sound.below rfl rfl .nil
  | @cons clause core clauses cores first others ih =>
      obtain ⟨name, init⟩ := clause
      obtain ⟨binder, core⟩ := core
      obtain ⟨datum, between, evaluatedInit, evaluated⟩ := Evaluation.run_bind_eq_some.mp evaluated
      obtain ⟨location, grown, allocates, evaluated⟩ := Evaluation.run_bind_eq_some.mp evaluated
      obtain ⟨located, last, evaluatedRest, done⟩ := Evaluation.run_bind_eq_some.mp evaluated
      obtain ⟨rfl, rfl⟩ := Evaluation.run_pure_eq_some.mp done
      obtain ⟨rfl, rfl⟩ := Evaluation.run_allocate_eq_some.mp allocates
      obtain ⟨_, early, writtenInit, written⟩ := Lower.writes_bind.mp written
      obtain ⟨binding, middle, binds, written⟩ := Lower.writes_bind.mp written
      obtain ⟨bounds, _, writtenRest, done⟩ := Lower.writes_bind.mp written
      obtain ⟨rfl, rfl⟩ := Lower.writes_pure.mp done
      have adds : (lowerNamed context cores bindings).Adds :=
        lowerNamed_adds _
      refine first.arrives_bindTop ready writtenInit binds
        (placed.of_precedes (adds _ _ _ writtenRest)) evaluatedInit
        fun later next resumes declares => ?_
      have leads := resumes.toLeads.trans declares.toLeads
      refine ih (ready.leads leads declares.below) writtenRest (leads.body ▸ placed)
        (declares.data.trans (congrArg (· ++ [datum]) resumes.data) ▸ evaluatedRest)
        fun final further below isData keys kept => ?_
      refine rest final (leads.trans further) below isData ?_ (.cons ⟨first.name.symm, ?_⟩ kept)
      · rw [List.map_cons, List.map_cons, keys, declares.type]
      · exact further.kept (resumes.data ▸ declares.kept)

/-! ## Clauses of which each sees the names before it -/

/-- The code of the initializers of clauses simulates them, each with the names before it. -/
inductive SimulatesInTurn (linkage : Linkage) (limit : Nat)
    (eval : Expr → Scope Location → Evaluation Datum) :
    Scope SourceTy → List (Name × Expr) → List (Binder × Core) → Scope SourceTy → Prop where
  | nil {types : Scope SourceTy} : SimulatesInTurn linkage limit eval types [] [] types
  | cons {types inner : Scope SourceTy} {clause : Name × Expr} {core : Binder × Core}
      {clauses : List (Name × Expr)} {cores : List (Binder × Core)}
      (first : SimulatesClause linkage limit types eval clause core)
      (rest : SimulatesInTurn linkage limit eval (types.bind clause.1 core.1.type) clauses cores
        inner) :
      SimulatesInTurn linkage limit eval types (clause :: clauses) (core :: cores) inner

theorem arrives_lowerClauses {inner : Scope SourceTy} {result : Scope Binding}
    {innerEnv : Scope Location}
    (simulate : SimulatesInTurn linkage limit eval types clauses cores inner)
    (ready : now.Ready linkage context seat types env bindings before)
    (written : (lowerClauses context cores bindings).Writes before result after)
    (placed : after.PlacedIn now.frame.body)
    (evaluated : (Expr.evalClauses eval clauses env).run now.memory.data = some (innerEnv, data))
    (rest : ∀ later, now.Leads linkage later → later.memory.data = data →
      later.Ready linkage context seat inner innerEnv result after →
      Arrives linkage.image limit (later.config seat after.position stack) post) :
    Arrives linkage.image limit (now.config seat before.position stack) post := by
  induction simulate generalizing now before env bindings with
  | nil =>
      obtain ⟨rfl, rfl⟩ := Evaluation.run_pure_eq_some.mp evaluated
      obtain ⟨rfl, rfl⟩ := Lower.writes_pure.mp written
      exact rest now ready.sound.leads rfl ready
  | @cons types inner clause core clauses cores first others ih =>
      obtain ⟨name, init⟩ := clause
      obtain ⟨binder, core⟩ := core
      obtain ⟨datum, between, evaluatedInit, evaluated⟩ := Evaluation.run_bind_eq_some.mp evaluated
      obtain ⟨location, grown, allocates, evaluatedRest⟩ :=
        Evaluation.run_bind_eq_some.mp evaluated
      obtain ⟨rfl, rfl⟩ := Evaluation.run_allocate_eq_some.mp allocates
      obtain ⟨_, early, writtenInit, written⟩ := Lower.writes_bind.mp written
      obtain ⟨binding, middle, binds, writtenRest⟩ := Lower.writes_bind.mp written
      obtain rfl : binder.name = name := first.name
      have adds : (lowerClauses context cores (bindings.bind binder.name binding)).Adds :=
        lowerClauses_adds _
      refine first.arrives_bindTop ready writtenInit binds
        (placed.of_precedes (adds _ _ _ writtenRest)) evaluatedInit
        fun later next resumes declares => ?_
      have leads := resumes.toLeads.trans declares.toLeads
      have isReady : next.Ready linkage context seat (types.bind binder.name binder.type)
          (env.bind binder.name between.length) (bindings.bind binder.name binding) middle := {
        ready.leads leads declares.below with
        stands := resumes.data ▸ declares.stands (resumes.toLeads.stands ready.stands) binder.name }
      exact ih isReady writtenRest (leads.body ▸ placed)
        (declares.data.trans (congrArg (· ++ [datum]) resumes.data) ▸ evaluatedRest)
        fun final further isData isFinal => rest final (leads.trans further) isData isFinal

end Clauses

/-! ## Nodes -/

variable {types inner : Scope SourceTy} {expr : Expr} {body : Core}
variable {clauses : List (Name × Expr)} {cores : List (Binder × Core)}

theorem simulates_letPar
    (simulate : List.Forall₂ (SimulatesClause linkage limit types eval) clauses cores)
    (bodySimulates : body.Simulates linkage limit
      (types.bindAll (cores.map fun core => (core.1.name, core.1.type))) (eval expr)) :
    (letPar cores body).Simulates linkage limit types (fun env => do
      let locations ← Expr.evalNamed eval clauses env
      eval expr (env.bindAll locations)) := by
  intro context seat tail env bindings before after now datum data stack post ready written placed
    evaluated falls ends
  obtain ⟨locations, between, evaluatedClauses, evaluatedBody⟩ :=
    Evaluation.run_bind_eq_some.mp evaluated
  obtain ⟨bounds, middle, writtenClauses, writtenBody⟩ := Lower.writes_bind.mp written
  have isPlaced := placed.of_precedes (body.lower_adds _ _ _ _ _ writtenBody)
  refine arrives_lowerNamed simulate ready writtenClauses isPlaced evaluatedClauses
    fun later leads below isData keys kept => ?_
  have isReady : later.Ready linkage context seat
      (types.bindAll (cores.map fun core => (core.1.name, core.1.type))) (env.bindAll locations)
      (bindings.bindAll bounds) middle := {
    ready.leads leads below with
    stands := keys ▸ (leads.stands ready.stands).bindAll kept }
  exact bodySimulates.inside ready.sound leads isReady writtenBody placed (isData ▸ evaluatedBody)
    falls ends

theorem simulates_letSeq (simulate : SimulatesInTurn linkage limit eval types clauses cores inner)
    (bodySimulates : body.Simulates linkage limit inner (eval expr)) :
    (letSeq cores body).Simulates linkage limit types (fun env => do
      let innerEnv ← Expr.evalClauses eval clauses env
      eval expr innerEnv) := by
  intro context seat tail env bindings before after now datum data stack post ready written placed
    evaluated falls ends
  obtain ⟨innerEnv, between, evaluatedClauses, evaluatedBody⟩ :=
    Evaluation.run_bind_eq_some.mp evaluated
  obtain ⟨result, middle, writtenClauses, writtenBody⟩ := Lower.writes_bind.mp written
  have isPlaced := placed.of_precedes (body.lower_adds _ _ _ _ _ writtenBody)
  refine arrives_lowerClauses simulate ready writtenClauses isPlaced evaluatedClauses
    fun later leads isData isReady => ?_
  exact bodySimulates.inside ready.sound leads isReady writtenBody placed (isData ▸ evaluatedBody)
    falls ends

end Core

end ClassForge
