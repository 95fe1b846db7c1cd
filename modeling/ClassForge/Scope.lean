import ClassForge.Diagnostic

/-!
# Scopes

What the names in scope stand for: their types while an expression is checked,
the places where they are stored while code is generated.  The newest binding of
a name hides the older ones.
-/

namespace ClassForge

/-- Bindings of names, the newest first. -/
structure Scope (α : Type) where
  bindings : List (Name × α)

namespace Scope

variable {α : Type}

/-- The scope that binds nothing. -/
def empty : Scope α := ⟨[]⟩

/-- Bind one name. -/
def bind (scope : Scope α) (name : Name) (value : α) : Scope α :=
  ⟨(name, value) :: scope.bindings⟩

/-- Bind names one after the other; of two bindings of a name the later one
counts. -/
def bindAll (scope : Scope α) (bindings : List (Name × α)) : Scope α :=
  ⟨bindings.reverse ++ scope.bindings⟩

/-- What a name is bound to. -/
def get? (scope : Scope α) (name : Name) : Option α :=
  scope.bindings.lookup name

/-- What a name stands for. -/
def lookup (scope : Scope α) (name : Name) : Except Diagnostic α :=
  match scope.get? name with
  | some value => .ok value
  | none => .error (.unboundVariable name)

/-- Nothing is bound at first. -/
@[simp]
theorem get?_empty (name : Name) : (empty : Scope α).get? name = none :=
  rfl

/-- A new binding hides the older ones of its name and no others. -/
theorem get?_bind (scope : Scope α) (name other : Name) (value : α) :
    (scope.bind name value).get? other =
      if other = name then some value else scope.get? other := by
  by_cases same : other = name
  · subst same
    simp [bind, get?]
  · have differs : (other == name) = false := by simpa using same
    simp [bind, get?, List.lookup_cons, same, differs]

@[simp]
theorem bindAll_nil (scope : Scope α) : scope.bindAll [] = scope :=
  rfl

/-- Binding a list binds its head first. -/
theorem bindAll_cons
    (scope : Scope α)
    (name : Name)
    (value : α)
    (bindings : List (Name × α)) :
    scope.bindAll ((name, value) :: bindings) =
      (scope.bind name value).bindAll bindings := by
  simp [bindAll, bind]

end Scope

end ClassForge
