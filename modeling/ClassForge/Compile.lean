import ClassForge.Build.Plan
import ClassForge.Build.Schedule
import ClassForge.ModuleSymbols
import ClassForge.Typing.Program

/-!
# Compilation

A module is compiled in two parts.  First it is checked as a whole: its
declarations are collected and every expression is checked against them and the
platform.  Only then is it built: the checked program becomes a list of steps,
which run on an image in the order of their keys.
-/

namespace ClassForge

/-- What a caller chooses about a compilation. -/
structure CompileOptions where
  /-- The name of the compiled module. -/
  name : Name := "main"
  /-- Whether calls in tail position give up their frame. -/
  tailCalls : Bool := true

/-- The completed types of one compilation, with those of lambdas and loops. -/
structure CompiledModule where
  name : Name
  /-- Types under their names, in ascending order. -/
  types : List (Name × RealizedType)

namespace CompiledModule

/-- The completed types among the items that a build resolved. -/
def ofResolution (name : Name) (resolution : Resolution) : CompiledModule where
  name := name
  types := resolution.sorted.filterMap fun
    | (.completed name, .completed realized) => some (name, realized)
    | _ => none

/-- Number of types that a compilation made. -/
def size (compiled : CompiledModule) : Nat :=
  compiled.types.length

/-- Whether a compilation made no type. -/
def isEmpty (compiled : CompiledModule) : Bool :=
  compiled.types.isEmpty

/-- The completed type of a name. -/
def get? (compiled : CompiledModule) (name : Name) : Option RealizedType :=
  compiled.types.lookup name

end CompiledModule

/-- Check a module against the platform types of an image. -/
def Module.check (module : Module) (image : Image) : Except Diagnostic Program := do
  let symbols ← Symbols.ofModule module
  TypeContext.checkModule { symbols, image } module

/-- Build a checked program into an image.  What was built before a failure stays
in the image. -/
def Program.build (program : Program) (options : CompileOptions) (image : Image) :
    Except Diagnostic CompiledModule × Image :=
  let start : BuildState Image := { target := image, resolution := .empty }
  match (schedule (program.steps options.tailCalls)).run start with
  | .ok () state =>
      (.ok (.ofResolution options.name state.resolution), state.target)
  | .error diagnostic state => (.error diagnostic, state.target)

/-- Compile a module into an image. -/
def Module.compile (module : Module) (options : CompileOptions) (image : Image) :
    Except Diagnostic CompiledModule × Image :=
  match module.check image with
  | .ok program => program.build options image
  | .error diagnostic => (.error diagnostic, image)

end ClassForge
