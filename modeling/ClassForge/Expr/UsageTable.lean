import ClassForge.Diagnostic
import ClassForge.Expr.Usage

/-!
# The table of free variables

The free variables of every node of a module are found once, from the leaves up, and kept in a table
under the place of the node.  What is asked for later is put together from the entries of the table:
the free variables of a node, of the part of a boundary that moves, and of the scope that a clause
of a `let*` binds its name in.
-/

namespace ClassForge

/-- The place of a node: which part it is of the node around it, which part that one is of the node
around it, and so on outwards. -/
abbrev NodePlace := List Nat

/-- The free variables of nodes, under their places. -/
structure UsageTable where
  entries : List (NodePlace × Usage)

namespace UsageTable

/-- The table of no place. -/
def empty : UsageTable := ⟨[]⟩

/-- Enter the free variables of a node; a later entry hides an earlier one. -/
def insert (table : UsageTable) (place : NodePlace) (usage : Usage) : UsageTable :=
  ⟨(place, usage) :: table.entries⟩

/-- What is used at a place. -/
def get? (table : UsageTable) (place : NodePlace) : Option Usage :=
  table.entries.lookup place

end UsageTable

/-- An analysis fills the table. -/
abbrev Analysis := StateM UsageTable

/-- Enter what is found out about a node. -/
def Analysis.record (place : NodePlace) (found : Analysis Usage) : Analysis Usage := do
  let usage ← found
  modify fun table => table.insert place usage
  return usage

/-- The free variables of the body of a `try` and of its handlers, each of which binds a name. -/
def Usage.handled (body : Usage) (handlers : List (Name × Usage)) : Usage :=
  handlers.foldl (fun usage (name, handler) => usage.union (handler.without [name])) body

namespace Expr

open Analysis Usage

mutual

/-- Find the free variables of an expression and of every node in it. -/
def analyze : Expr → NodePlace → Analysis Usage
  | literal _, place => record place (return .empty)
  | var name, place => record place (return .read name)
  | set name value, place => record place do
      let value ← analyze value (0 :: place)
      return value.union (.assigned name)
  | seq items, place => record place do
      let items ← analyzeAll items 0 place
      return .unionAll items
  | logic _ items, place => record place do
      let items ← analyzeAll items 0 place
      return .unionAll items
  | when test body, place => record place do
      let test ← analyze test (0 :: place)
      let body ← analyze body (1 :: place)
      return .unionAll [test, body]
  | cond test yes no, place => record place do
      let test ← analyze test (0 :: place)
      let yes ← analyze yes (1 :: place)
      let no ← analyze no (2 :: place)
      return .unionAll [test, yes, no]
  | .while test body, place => record place do
      let test ← analyze test (0 :: place)
      let body ← analyze body (1 :: place)
      return .unionAll [test, body]
  | switch selector arms default, place => record place do
      let selector ← analyze selector (0 :: place)
      let cases ← analyzeArms arms 1 place
      let default ← analyze default ((arms.length + 1) :: place)
      return .unionAll (selector :: cases ++ [default])
  | letPar clauses body, place => record place do
      let inits ← analyzeNamed clauses 0 place
      let body ← analyze body (clauses.length :: place)
      return (Usage.unionAll inits).union (body.without (clauses.map (·.1)))
  | letSeq clauses body, place => record place do
      let inits ← analyzeNamed clauses 0 place
      let body ← analyze body (clauses.length :: place)
      return ((clauses.map (·.1)).zip inits).reverse.foldl
        (fun usage (name, init) => init.union (usage.without [name])) body
  | letRec clauses body, place => record place do
      let inits ← analyzeTyped clauses 0 place
      let body ← analyze body (clauses.length :: place)
      return ((Usage.unionAll inits).union body).without (clauses.map (·.1.name))
  | loop _ name vars _ body, place => record place do
      let inits ← analyzeTyped vars 0 place
      let body ← analyze body (vars.length :: place)
      return (Usage.unionAll inits).union
        (((body.without (vars.map (·.1.name))).captureAll).without [name])
  | lambda _ params body, place => record place do
      let body ← analyze body (0 :: place)
      return (body.without (params.map Param.name)).captureAll
  | invoke function args, place => record place do
      let function ← analyze function (0 :: place)
      let args ← analyzeAll args 1 place
      return .unionAll (function :: args)
  | unary _ operand, place => record place do
      let operand ← analyze operand (0 :: place)
      return .unionAll [operand]
  | binary _ left right, place => record place do
      let left ← analyze left (0 :: place)
      let right ← analyze right (1 :: place)
      return .unionAll [left, right]
  | ternary _ first second third, place => record place do
      let first ← analyze first (0 :: place)
      let second ← analyze second (1 :: place)
      let third ← analyze third (2 :: place)
      return .unionAll [first, second, third]
  | staticField _ _, place => record place (return .empty)
  | staticProperty _ _, place => record place (return .empty)
  | staticCall _ _ args, place => record place do
      let args ← analyzeAll args 0 place
      return .unionAll args
  | call receiver _ args, place => record place do
      let receiver ← analyze receiver (0 :: place)
      let args ← analyzeAll args 1 place
      return .unionAll (receiver :: args)
  | new _ args, place => record place do
      let args ← analyzeAll args 0 place
      return .unionAll args
  | tryCatch _ body catches, place => record place do
      let body ← analyze body (0 :: place)
      let handlers ← analyzeTyped catches 1 place
      return (handled body ((catches.map (·.1.name)).zip handlers)).captureAll
  | tryFinally _ body catches final, place => record place do
      let body ← analyze body (0 :: place)
      let handlers ← analyzeTyped catches 1 place
      let final ← analyze final ((catches.length + 1) :: place)
      return ((handled body ((catches.map (·.1.name)).zip handlers)).union final).captureAll
  | pin _ arrays body, place => record place do
      let inits ← analyzeNamed arrays 0 place
      let body ← analyze body (arrays.length :: place)
      return (Usage.unionAll inits).union (body.without (arrays.map (·.1))).captureAll
termination_by structural expr => expr

/-- Go over parts of a node, from the part of some number on. -/
def analyzeAll : List Expr → (first : Nat) → NodePlace → Analysis (List Usage)
  | [], _, _ => return []
  | part :: parts, first, place => do
      let usage ← analyze part (first :: place)
      let usages ← analyzeAll parts (first + 1) place
      return usage :: usages
termination_by structural parts => parts

/-- Go over the arms of a `switch`. -/
def analyzeArms : List (List UInt32 × Expr) → (first : Nat) → NodePlace → Analysis (List Usage)
  | [], _, _ => return []
  | (_, arm) :: arms, first, place => do
      let usage ← analyze arm (first :: place)
      let usages ← analyzeArms arms (first + 1) place
      return usage :: usages
termination_by structural arms => arms

/-- Go over named clauses. -/
def analyzeNamed : List (Name × Expr) → (first : Nat) → NodePlace → Analysis (List Usage)
  | [], _, _ => return []
  | (_, init) :: clauses, first, place => do
      let usage ← analyze init (first :: place)
      let usages ← analyzeNamed clauses (first + 1) place
      return usage :: usages
termination_by structural clauses => clauses

/-- Go over typed clauses. -/
def analyzeTyped : List (Param × Expr) → (first : Nat) → NodePlace → Analysis (List Usage)
  | [], _, _ => return []
  | (_, init) :: clauses, first, place => do
      let usage ← analyze init (first :: place)
      let usages ← analyzeTyped clauses (first + 1) place
      return usage :: usages
termination_by structural clauses => clauses

end

/-- The free variables of an expression, found with a table of its own. -/
def analyzed (expr : Expr) : Usage :=
  ((analyze expr []).run .empty).1

end Expr

namespace UsageTable

/-- The table for the roots of a module; the place of a root is its number. -/
def ofRoots (roots : List Expr) : UsageTable :=
  ((Expr.analyzeAll roots 0 []).run .empty).2

variable (table : UsageTable)

/-- The free variables of a node. -/
def lookup (expr : Expr) (place : NodePlace) : Except Diagnostic Usage :=
  match table.get? place with
  | some usage => .ok usage
  | none => .error (.internal ("no capture spec for " ++ expr.kind ++ " node"))

/-- Free variables of the part of a boundary that moves into a member of its own. -/
def boundaryFree (expr : Expr) (place : NodePlace) : Except Diagnostic Usage := do
  match expr with
  | .lambda _ params body =>
      let body ← table.lookup body (0 :: place)
      return (body.without (params.map Param.name)).captureAll
  | .loop _ _ vars _ body =>
      let body ← table.lookup body (vars.length :: place)
      return (body.without (vars.map (·.1.name))).captureAll
  | .tryCatch _ body catches =>
      let body ← table.lookup body (0 :: place)
      let handled ← handlers catches body
      return handled.captureAll
  | .tryFinally _ body catches final =>
      let body ← table.lookup body (0 :: place)
      let handled ← handlers catches body
      let final ← table.lookup final ((catches.length + 1) :: place)
      return (handled.union final).captureAll
  | .pin _ arrays body =>
      let body ← table.lookup body (arrays.length :: place)
      return (body.without (arrays.map (·.1))).captureAll
  | other => throw (.internal (other.kind ++ " node is not a capture boundary"))
where
  /-- Add the handlers of a `try`, which follow its body. -/
  handlers (catches : List (Param × Expr)) (body : Usage) : Except Diagnostic Usage :=
    (catches.zipIdx 1).foldlM (fun usage ((param, handler), index) => do
      let handler ← table.lookup handler (index :: place)
      return usage.union (handler.without [param.name])) body

/-- Free variables of the scope that a clause of a `let*` binds its name in: the clauses after it,
of which the first has a number, and the body. -/
def sequentialScope (first : Nat) (rest : List (Name × Expr)) (body : Expr) (place : NodePlace) :
    Except Diagnostic Usage := do
  let usage ← table.lookup body ((first + rest.length) :: place)
  (rest.zipIdx first).reverse.foldlM (fun usage ((name, init), index) => do
    let init ← table.lookup init (index :: place)
    return init.union (usage.without [name])) usage

end UsageTable

end ClassForge
