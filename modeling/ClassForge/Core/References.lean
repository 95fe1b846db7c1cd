import ClassForge.Core.Lifted

/-!
# Keys that code refers to

Code can be generated once everything it needs a handle for exists.  The keys
collected here are those of the declared types and members that the code of an
expression refers to; what belongs to the platform has no key.
-/

namespace ClassForge

namespace Core

/-- Variables of the boundary that cross it. -/
def captures : Core → List Param
  | loop _ _ _ _ captures _ | lambda _ _ captures _ | tryCatch _ captures _ _
  | tryFinally _ captures _ _ _ | pin _ captures _ _ => captures
  | _ => []

/-- Types that a node mentions itself, apart from its own type and those of
captured variables. -/
def mentioned : Core → List SourceTy
  | apply _ action _ => action.types
  | letRec clauses _ => clauses.map fun (binder, _) => binder.type
  | loop _ _ vars _ _ _ => vars.map fun (binder, _) => binder.type
  | lambda _ params _ _ => params.map Binder.type
  | tryCatch _ _ _ catches | tryFinally _ _ _ catches _ =>
      catches.map fun (handler, _) => handler.type
  | _ => []

/-- Key of the member that a node uses, if that is a declared one. -/
def memberKey? : Core → Option Key
  | member _ use _ => use.key?
  | _ => none

/-- Keys of the members that the code of a boundary moves into. -/
def liftedKeys (host : Name) (core : Core) : List Key :=
  match core.closure? host with
  | some closure => [.ctor closure.ctorKey, .method closure.invokeKey]
  | none => (core.block? host).toList.map fun block => .method block.key

/-- Keys that the code of one node refers to, its subexpressions apart. -/
def nodeKeys (host : Name) (core : Core) : List Key :=
  typeKeys [core.type] ++ core.memberKey?.toList ++ typeKeys core.mentioned ++
    typeKeys (core.captures.map Param.type) ++ core.liftedKeys host

end Core

/-- Keys that the code of some expressions in a class refers to, each once, in
the order of first use. -/
def references (host : Name) (roots : List Core) : List Key :=
  ((Core.preorderAll roots).flatMap (Core.nodeKeys host)).eraseDups

end ClassForge
