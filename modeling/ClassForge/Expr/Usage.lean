import ClassForge.Expr.Basic

/-!
# Free variables and how they are used

The free variables of an expression, each with two marks.  A variable is
*mutated* when some free occurrence is an assignment.  It is *captured* when
some free occurrence lies inside a boundary: the code there moves into a member
of its own, so the variable has to live in a cell that both sides share.
-/

namespace ClassForge

/-- How a free variable is used. -/
structure VarUse where
  captured : Bool := false
  mutated : Bool := false
  deriving DecidableEq, Repr

/-- A use that has the marks of both uses. -/
def VarUse.merge (left right : VarUse) : VarUse where
  captured := left.captured || right.captured
  mutated := left.mutated || right.mutated

/-- Free variables with their uses, in ascending order of names. -/
structure Usage where
  entries : List (Name × VarUse)
  deriving DecidableEq, Repr

namespace Usage

/-- No variable is used. -/
def empty : Usage := ⟨[]⟩

/-- One read of a variable. -/
def read (name : Name) : Usage := ⟨[(name, {})]⟩

/-- One assignment to a variable. -/
def assigned (name : Name) : Usage := ⟨[(name, { mutated := true })]⟩

/-- Add a use to ordered entries, merging it with the one that is there. -/
def insertUse (name : Name) (use : VarUse) :
    List (Name × VarUse) → List (Name × VarUse)
  | [] => [(name, use)]
  | (other, otherUse) :: entries =>
      if name < other then (name, use) :: (other, otherUse) :: entries
      else if name = other then (other, otherUse.merge use) :: entries
      else (other, otherUse) :: insertUse name use entries

/-- The uses of both sides. -/
def union (left right : Usage) : Usage :=
  ⟨right.entries.foldl (fun entries entry => insertUse entry.1 entry.2 entries)
    left.entries⟩

/-- The uses of all members of a list. -/
def unionAll (usages : List Usage) : Usage :=
  usages.foldl union empty

/-- The uses of all names but the given ones. -/
def without (usage : Usage) (names : List Name) : Usage :=
  ⟨usage.entries.filter fun entry => !names.contains entry.1⟩

/-- Every use marked as captured. -/
def captureAll (usage : Usage) : Usage :=
  ⟨usage.entries.map fun entry => (entry.1, { entry.2 with captured := true })⟩

/-- How a variable is used. -/
def get? (usage : Usage) (name : Name) : Option VarUse :=
  usage.entries.lookup name

/-- Whether a function captures a variable. -/
def isCaptured (usage : Usage) (name : Name) : Bool :=
  (usage.get? name).any VarUse.captured

/-- The free names, in ascending order. -/
def names (usage : Usage) : List Name :=
  usage.entries.map (·.1)

/-- Number of variables that are used. -/
def size (usage : Usage) : Nat :=
  usage.entries.length

/-- Whether no variable is used. -/
def isEmpty (usage : Usage) : Bool :=
  usage.entries.isEmpty

/-! ## Combinations for the binding forms -/

/-- Clauses that are evaluated in the outer scope, and a body in which the
clause names are bound. -/
def parallel (clauses : List (Name × Usage)) (body : Usage) : Usage :=
  (unionAll (clauses.map (·.2))).union (body.without (clauses.map (·.1)))

/-- Clauses of which each binds its name in all that follows. -/
def sequential : List (Name × Usage) → Usage → Usage
  | [], body => body
  | (name, init) :: clauses, body =>
      init.union ((sequential clauses body).without [name])

/-- Clauses whose names are bound in every clause and in the body. -/
def recursive (clauses : List (Name × Usage)) (body : Usage) : Usage :=
  ((unionAll (clauses.map (·.2))).union body).without (clauses.map (·.1))

/-- What a body that binds some names uses from outside a boundary around it. -/
def moved (bound : List Name) (body : Usage) : Usage :=
  (body.without bound).captureAll

/-- What the parts of a `try` use from outside. -/
def guarded (body : Usage) (catches : List (Name × Usage))
    (final : Option Usage) : Usage :=
  let handled := catches.foldl
    (fun usage handler => usage.union (handler.2.without [handler.1])) body
  let whole := match final with
    | some final => handled.union final
    | none => handled
  whole.captureAll

end Usage

namespace Expr

mutual

/-- The free variables of an expression. -/
def usage : Expr → Usage
  | literal _ => .empty
  | var name => .read name
  | set name value => (usage value).union (.assigned name)
  | seq items => .unionAll (usages items)
  | logic _ items => .unionAll (usages items)
  | when test body => .unionAll [usage test, usage body]
  | cond test yes no => .unionAll [usage test, usage yes, usage no]
  | .while test body => .unionAll [usage test, usage body]
  | switch selector arms default =>
      .unionAll (usage selector :: armUsages arms ++ [usage default])
  | letPar clauses body => .parallel (namedUsages clauses) (usage body)
  | letSeq clauses body => .sequential (namedUsages clauses) (usage body)
  | letRec clauses body => .recursive (typedUsages clauses) (usage body)
  | loop _ name vars _ body =>
      let vars := typedUsages vars
      (Usage.unionAll (vars.map (·.2))).union
        ((Usage.moved (vars.map (·.1)) (usage body)).without [name])
  | lambda _ params body => .moved (params.map Param.name) (usage body)
  | invoke function args => .unionAll (usage function :: usages args)
  | unary _ operand => .unionAll [usage operand]
  | binary _ left right => .unionAll [usage left, usage right]
  | ternary _ first second third =>
      .unionAll [usage first, usage second, usage third]
  | staticField _ _ => .empty
  | staticProperty _ _ => .empty
  | staticCall _ _ args => .unionAll (usages args)
  | call receiver _ args => .unionAll (usage receiver :: usages args)
  | new _ args => .unionAll (usages args)
  | tryCatch _ body catches => .guarded (usage body) (typedUsages catches) none
  | tryFinally _ body catches final =>
      .guarded (usage body) (typedUsages catches) (some (usage final))
  | pin _ arrays body =>
      let arrays := namedUsages arrays
      (Usage.unionAll (arrays.map (·.2))).union
        (Usage.moved (arrays.map (·.1)) (usage body))
termination_by structural expr => expr

/-- Free variables of each member of a list. -/
def usages : List Expr → List Usage
  | [] => []
  | expr :: exprs => usage expr :: usages exprs
termination_by structural exprs => exprs

/-- Free variables of each arm of a `switch`. -/
def armUsages : List (List UInt32 × Expr) → List Usage
  | [] => []
  | (_, expr) :: arms => usage expr :: armUsages arms
termination_by structural arms => arms

/-- Free variables of each named clause, with the name. -/
def namedUsages : List (Name × Expr) → List (Name × Usage)
  | [] => []
  | (name, expr) :: clauses => (name, usage expr) :: namedUsages clauses
termination_by structural clauses => clauses

/-- Free variables of each typed clause, with the name. -/
def typedUsages : List (Param × Expr) → List (Name × Usage)
  | [] => []
  | (param, expr) :: clauses => (param.name, usage expr) :: typedUsages clauses
termination_by structural clauses => clauses

end

/-- Free variables of the part of a boundary that moves into a member of its
own.  Their bindings live in cells; other nodes move nothing. -/
def crossing : Expr → Usage
  | lambda _ params body => .moved (params.map Param.name) (usage body)
  | loop _ _ vars _ body => .moved (vars.map (·.1.name)) (usage body)
  | tryCatch _ body catches => .guarded (usage body) (typedUsages catches) none
  | tryFinally _ body catches final =>
      .guarded (usage body) (typedUsages catches) (some (usage final))
  | pin _ arrays body => .moved (arrays.map (·.1)) (usage body)
  | _ => .empty

end Expr

end ClassForge
