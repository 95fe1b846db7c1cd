import ClassForge.Class
import ClassForge.Expr.Preorder
import ClassForge.Symbols

/-!
# Declaring the symbols of a module

The declarations of a module are recorded before any expression is looked at, so
that code can refer to members that are declared further down.  Faults in the
shape of a class that checking its code could not report are found here.

The members that lambdas, loops, `try` and `pin` blocks move their code into are
not recorded: no expression can name them.
-/

namespace ClassForge

/-- Refuse a declaration that breaks a rule. -/
def checkRule (item : String) (rule : DeclarationRule) (broken : Bool) :
    Except Diagnostic Unit :=
  if broken then .error (.invalidDeclaration item rule) else .ok ()

namespace ClassDef

/-- Rules about the class itself. -/
def checkShape (cls : ClassDef) : Except Diagnostic Unit := do
  let check := checkRule ("type " ++ cls.name)
  check .valueTypeInterface (cls.attrs.isValueType && cls.attrs.isInterface)
  check .noBaseAllowed
    ((cls.attrs.isValueType || cls.attrs.isInterface) && cls.base.isSome)
  check .derivesFromItself (cls.base == some cls.selfType)
  check .interfaceState
    (cls.attrs.isInterface && !(cls.fields.isEmpty && cls.ctors.isEmpty))
  check .interfaceMethodBody
    (cls.attrs.isInterface &&
      cls.methods.any fun method => method.body.isSome || method.attrs.isStatic)

/-- Rules about a method. -/
def checkMethod (cls : ClassDef) (method : MethodDef) : Except Diagnostic Unit := do
  let check := checkRule ("method " ++ cls.name ++ "." ++ method.name)
  let isAbstract := method.attrs.isAbstract || cls.attrs.isInterface
  check .missingBody (method.body.isNone && !isAbstract)
  check .abstractWithBody (method.body.isSome && isAbstract)
  check .abstractInConcrete
    (isAbstract && !(cls.attrs.isAbstract || cls.attrs.isInterface))
  check .staticVirtual (method.attrs.isStatic && method.attrs.isVirtual)

/-- Rules about a property. -/
def checkProperty (cls : ClassDef) (property : PropertyDef) :
    Except Diagnostic Unit := do
  let check := checkRule ("property " ++ cls.name ++ "." ++ property.name)
  check .propertyWithoutAccessor (property.getter.isNone && property.setter.isNone)
  check .voidProperty property.type.isVoid

/-- Rules about a class and its members. -/
def validate (cls : ClassDef) : Except Diagnostic Unit := do
  cls.checkShape
  cls.methods.forM cls.checkMethod
  cls.properties.forM cls.checkProperty

/-- Numbers of the boundaries in the code of a class. -/
def boundaryIds (cls : ClassDef) : List NodeId :=
  cls.roots.flatMap Expr.boundaryIds

/-- Add the boundaries of a class to the numbers that are taken.  Members are
named after boundaries, so every boundary of a module needs its own number. -/
def takeNodeIds (cls : ClassDef) (taken : List NodeId) :
    Except Diagnostic (List NodeId) :=
  cls.boundaryIds.foldlM
    (fun taken id =>
      if taken.contains id then
        .error (.invalidDeclaration
          ("node " ++ toString id ++ " in type " ++ cls.name) .sharedNodeId)
      else
        .ok (id :: taken))
    taken

/-- What the members of a class and the class itself are declared as, in
order. -/
def declarations (cls : ClassDef) : List (Key × Declaration) :=
  (.type cls.name,
      .type { attrs := cls.attrs, base := cls.base, interfaces := cls.interfaces }) ::
    cls.fields.map (fun field =>
      (.field (field.key cls.name),
        .field { attrs := field.attrs, type := field.type })) ++
    cls.methods.map (fun method =>
      (.method (method.key cls.name),
        .method { attrs := cls.methodAttrs method.attrs, ret := method.ret })) ++
    cls.allCtors.map (fun ctor =>
      (.ctor (ctor.key cls.name), .ctor { attrs := ctor.attrs })) ++
    cls.properties.flatMap ofProperty
where
  /-- A property is declared together with its accessors. -/
  ofProperty (property : PropertyDef) : List (Key × Declaration) :=
    let attrs := MethodAttrs.generated property.isStatic
    (.property (property.key cls.name),
        .property
          { isStatic := property.isStatic, type := property.type,
            hasGetter := property.getter.isSome,
            hasSetter := property.setter.isSome }) ::
      ((property.getterKey? cls.name).toList.map fun key =>
        (.method key, .method { attrs, ret := property.type })) ++
      ((property.setterKey? cls.name).toList.map fun key =>
        (.method key, .method { attrs, ret := .void }))

/-- Record a class and its members. -/
def declare (cls : ClassDef) (symbols : Symbols) : Except Diagnostic Symbols :=
  cls.declarations.foldlM (fun symbols (key, decl) => symbols.declare key decl) symbols

end ClassDef

/-- The declarations of some classes, added to what is there. -/
def Symbols.ofClasses :
    List ClassDef → (taken : List NodeId) → Symbols → Except Diagnostic Symbols
  | [], _, symbols => .ok symbols
  | cls :: classes, taken, symbols => do
      cls.validate
      let taken ← cls.takeNodeIds taken
      let symbols ← cls.declare symbols
      ofClasses classes taken symbols

/-- The declarations of a module. -/
def Symbols.ofModule (module : Module) : Except Diagnostic Symbols :=
  ofClasses module.classes [] .empty

end ClassForge
