import ClassForge.Proofs.Typing.KnownTypes

/-!
# Elementary expressions

Expressions without objects are numbers and truth values, variables, choices, loops, functions and
the operators that are single instructions.  When the types that such an expression is annotated
with are known, so are the types of all its parts, and its code asks the platform only for what the
platform has.
-/

namespace ClassForge

/-! ## Expressions without objects -/

/-- Whether an operator is in the fragment. -/
def UnaryOp.isElementary : UnaryOp → Bool
  | neg | bitNot | not => true
  | _ => false

/-- Whether an operator is in the fragment. -/
def BinaryOp.isElementary : BinaryOp → Bool
  | add | sub | mul | bitAnd | bitOr | bitXor | eq | ne | lt | le | gt | ge => true
  | _ => false

namespace Expr

/-- Whether a node can be part of an expression without objects.  Functions take as many parameters
as the platform has function types for. -/
def isElementary : Expr → Bool
  | literal (.int32 _) | literal (.bool _) | var _ | set _ _ | seq _ | logic _ _ | when _ _
  | cond _ _ _ | .while _ _ | switch _ _ _ | letPar _ _ | letSeq _ _ | invoke _ _ => true
  | lambda _ params _ => params.length < Library.maxDelegateArity
  | loop _ _ vars _ _ => vars.length < Library.maxDelegateArity
  | unary (.op op) _ => op.isElementary
  | binary (.op op) _ _ => op.isElementary
  | _ => false

/-- The types that a node is annotated with. -/
def annotations : Expr → List SourceTy
  | loop _ _ vars ret _ => ret :: vars.map fun (param, _) => param.type
  | lambda _ params _ => params.map Param.type
  | _ => []

/-- An expression without objects whose annotations are known types. -/
structure Elementary (image : Image) (names : List Name) (expr : Expr) : Prop where
  nodes : ∀ node ∈ expr.preorder, node.isElementary = true
  annotated : ∀ node ∈ expr.preorder, ∀ type ∈ node.annotations, image.knows names type = true

instance (image : Image) (names : List Name) (expr : Expr) :
    Decidable (expr.Elementary image names) :=
  decidable_of_iff ((∀ node ∈ expr.preorder, node.isElementary = true) ∧
      ∀ node ∈ expr.preorder, ∀ type ∈ node.annotations, image.knows names type = true)
    ⟨fun holds => ⟨holds.1, holds.2⟩, fun holds => ⟨holds.nodes, holds.annotated⟩⟩

variable {image : Image} {names : List Name} {expr child : Expr}

theorem mem_preorder_self (expr : Expr) : expr ∈ expr.preorder := by
  rw [preorder_eq_cons]
  exact List.mem_cons_self

theorem Elementary.ofChild (elementary : expr.Elementary image names)
    (isChild : child ∈ expr.children) : child.Elementary image names := by
  have subset : ∀ node ∈ child.preorder, node ∈ expr.preorder := by
    intro node isNode
    rw [preorder_eq_cons]
    exact List.mem_cons_of_mem _ (List.mem_flatMap.mpr ⟨child, isChild, isNode⟩)
  exact ⟨fun node isNode => elementary.nodes node (subset node isNode),
    fun node isNode => elementary.annotated node (subset node isNode)⟩

end Expr

/-! ## Their checked form -/

/-- The names in scope are of known types. -/
def Scope.Known (image : Image) (names : List Name) (scope : Scope SourceTy) : Prop :=
  ∀ name type, scope.get? name = some type → image.knows names type = true

namespace Scope.Known

variable {image : Image} {names : List Name} {scope : Scope SourceTy}

theorem empty : (Scope.empty : Scope SourceTy).Known image names :=
  nofun

theorem bind (known : scope.Known image names) (name : Name) {type : SourceTy}
    (isKnown : image.knows names type = true) : (scope.bind name type).Known image names := by
  intro other found isFound
  rw [Scope.get?_bind] at isFound
  split at isFound
  · cases isFound
    exact isKnown
  · exact known other found isFound

theorem bindAll (known : scope.Known image names) {bindings : List (Name × SourceTy)}
    (areKnown : ∀ entry ∈ bindings, image.knows names entry.2 = true) :
    (scope.bindAll bindings).Known image names := by
  induction bindings generalizing scope with
  | nil => exact known
  | cons entry bindings ih =>
      obtain ⟨isKnown, others⟩ := List.forall_mem_cons.mp areKnown
      rw [Scope.bindAll_cons]
      exact ih (known.bind _ isKnown) others

/-- What crosses a boundary is of known types. -/
theorem captures (known : scope.Known image names) {uses : List Name} {captures : List Param}
    (crossing : List.Forall₂ (Expr.Crosses scope) uses captures) :
    ∀ capture ∈ captures, image.knows names capture.type = true := by
  intro capture isCapture
  obtain ⟨name, -, crosses⟩ := exists_related_left crossing isCapture
  exact known name _ crosses.bound

end Scope.Known

namespace Core

/-- A node without objects: its types are known, it stands for no member, and what its code asks
for is there. -/
structure IsElementary (image : Image) (names : List Name) (node : Core) : Prop where
  known : image.knows names node.type = true
  mentioned : ∀ type ∈ node.mentioned, image.knows names type = true
  captured : ∀ capture ∈ node.captures, image.knows names capture.type = true
  keyless : node.memberKey? = none
  blockless : ∀ host, node.block? host = none
  asks : ∀ context : LowerContext, context.image.Built → image.Extends context.image →
    ∀ member ∈ node.platformMembers, member.Found context

/-- A checked expression without objects. -/
def Elementary (image : Image) (names : List Name) (core : Core) : Prop :=
  ∀ node ∈ core.preorder, node.IsElementary image names

variable {image : Image} {names : List Name} {core part : Core}

theorem Elementary.self (elementary : core.Elementary image names) : core.IsElementary image names :=
  elementary core (mem_preorder_self core)

theorem Elementary.known (elementary : core.Elementary image names) :
    image.knows names core.type = true :=
  elementary.self.known

theorem Elementary.of_parts (own : core.IsElementary image names)
    (parts : ∀ part ∈ core.parts, part.Elementary image names) : core.Elementary image names := by
  intro node isNode
  rw [preorder_eq_cons] at isNode
  rcases List.mem_cons.mp isNode with rfl | isNode
  · exact own
  · obtain ⟨part, isPart, isNode⟩ := List.mem_flatMap.mp isNode
    exact parts part isPart node isNode

/-- A node that mentions no types, crosses no boundary and asks for nothing is elementary if its
own type is known. -/
theorem IsElementary.of_known (known : image.knows names core.type = true)
    (plain : core.mentioned = [] ∧ core.captures = [] ∧ core.memberKey? = none ∧
      (∀ host, core.block? host = none) ∧ core.platformMembers = []) :
    core.IsElementary image names where
  known
  mentioned := by simp [plain]
  captured := by simp [plain]
  keyless := plain.2.2.1
  blockless := plain.2.2.2.1
  asks := by simp [plain]

theorem knows_lastType (built : image.Built) {items : List Core}
    (known : ∀ item ∈ items, image.knows names item.type = true) :
    image.knows names (lastType items) = true := by
  induction items with
  | nil => exact built.knows_void
  | cons item items ih =>
      cases items with
      | nil => exact known item List.mem_cons_self
      | cons other others => exact ih (List.forall_mem_cons.mp known).2

end Core

namespace Operators

variable {type : SourceTy} {action : Action}

/-- An elementary operator on one operand is code for values of the type of the operand. -/
theorem unary_elementary {op : UnaryOp} {operand : SourceTy} (elementary : op.isElementary = true)
    (means : unary op operand = .ok (type, action)) :
    type = operand ∧ action.platformMembers = [] ∧ action.types = [] := by
  obtain ⟨prim, -, found⟩ := Option.bind_eq_some_iff.mp (unary?_of_unary means)
  split at found
  · cases found
    cases op <;> first | exact ⟨rfl, rfl, rfl⟩ | cases elementary
  · cases found

/-- An arithmetic operator gives a value of the type of the first operand, and calls at most the
routine that joins texts. -/
theorem arithmetic_elementary {op : BinaryOp} {left right : SourceTy}
    (means : arithmetic? op left right = some (type, action)) :
    type = left ∧ action.types = [] ∧ ∀ member ∈ action.platformMembers,
      member = .method .string "Concat" false [.string, .string] := by
  unfold arithmetic? at means
  split at means
  · rename_i isText
    cases means
    exact ⟨isText.2.1.symm, rfl, fun member isMember => List.mem_singleton.mp isMember⟩
  · split at means
    · rename_i isPointer
      cases means
      exact ⟨isPointer.2.1.symm, rfl, nofun⟩
    · obtain ⟨prim, -, ⟨⟩⟩ := Option.bind_eq_some_iff.mp means
      exact ⟨rfl, rfl, nofun⟩

/-- An elementary operator on two operands gives a truth value or a value of the type of the first
operand, and calls at most the routine that joins texts. -/
theorem binary_elementary {context : TypeContext} {op : BinaryOp} {left right : SourceTy}
    (elementary : op.isElementary = true)
    (means : binary context op left right = .ok (type, action)) :
    (type = left ∨ type = .bool) ∧ action.types = [] ∧ ∀ member ∈ action.platformMembers,
      member = .method .string "Concat" false [.string, .string] := by
  have found := binary?_of_binary means
  cases op with
  | add | sub | mul =>
      obtain ⟨isType, rest⟩ := arithmetic_elementary found
      exact ⟨.inl isType, rest⟩
  | bitAnd | bitOr | bitXor =>
      obtain ⟨prim, -, ⟨⟩⟩ := Option.bind_eq_some_iff.mp found
      exact ⟨.inl rfl, rfl, nofun⟩
  | eq | ne =>
      unfold binary? at found
      dsimp only at found
      split at found
      · cases found
        exact ⟨.inr rfl, rfl, nofun⟩
      · cases found
  | lt | le | gt | ge =>
      obtain ⟨prim, -, ⟨⟩⟩ := Option.map_eq_some_iff.mp found
      exact ⟨.inr rfl, rfl, nofun⟩
  | _ => cases elementary

end Operators

namespace Expr

variable {image : Image} {names : List Name} {context : TypeContext} {scope : Scope SourceTy}

/-- What the clauses of a `let*` bind is of known types, if their values are. -/
theorem ChecksInTurn.known {body : Usage} {inner : Scope SourceTy} {clauses : List (Name × Expr)}
    {cores : List (Binder × Core)} (checked : ChecksInTurn context body scope clauses cores inner)
    (each : ∀ clause ∈ clauses, ∀ {scope : Scope SourceTy} {core : Core},
      Checks context scope clause.2 core → scope.Known image names → core.Elementary image names)
    (known : scope.Known image names) :
    inner.Known image names ∧ ∀ core ∈ cores, core.2.Elementary image names := by
  induction checked with
  | nil => exact ⟨known, nofun⟩
  | cons first _ ih =>
      obtain ⟨ofFirst, others⟩ := List.forall_mem_cons.mp each
      have isElementary := ofFirst first known
      obtain ⟨innerKnown, rest⟩ := ih others (known.bind _ isElementary.known)
      exact ⟨innerKnown, List.forall_mem_cons.mpr ⟨isElementary, rest⟩⟩

/-- The checked form of an elementary expression is elementary, where the names in scope are of
known types. -/
theorem Checks.elementary (built : image.Built) {expr : Expr} {core : Core}
    (checked : Checks context scope expr core) (elementary : expr.Elementary image names)
    (known : scope.Known image names) : core.Elementary image names := by
  induction expr using Expr.childInduction generalizing scope core with
  | _ expr ih =>
  have each : ∀ {scope child core}, child ∈ expr.children → Checks context scope child core →
      scope.Known image names → core.Elementary image names :=
    fun isChild checked known => ih _ isChild checked (elementary.ofChild isChild) known
  have all : ∀ {items : List Expr} {cores : List Core}, (∀ item ∈ items, item ∈ expr.children) →
      List.Forall₂ (Checks context scope) items cores →
        ∀ core ∈ cores, core.Elementary image names := by
    intro items cores subset checked core isCore
    obtain ⟨item, isItem, itemChecked⟩ := exists_related_left checked isCore
    exact each (subset item isItem) itemChecked known
  have isHere := elementary.nodes expr (mem_preorder_self expr)
  have annotated := elementary.annotated expr (mem_preorder_self expr)
  cases checked.elaborates with
  | literal value =>
      refine .of_parts (.of_known ?_ ⟨rfl, rfl, rfl, fun _ => rfl, rfl⟩) (List.forall_mem_nil _)
      cases value <;> first | exact built.knows_prim _ | cases isHere
  | var bound =>
      exact .of_parts (.of_known (known _ _ bound) ⟨rfl, rfl, rfl, fun _ => rfl, rfl⟩) (List.forall_mem_nil _)
  | set _ value =>
      refine .of_parts (.of_known built.knows_void ⟨rfl, rfl, rfl, fun _ => rfl, rfl⟩) ?_
      exact List.forall_mem_singleton.mpr (each List.mem_cons_self value known)
  | seq items =>
      have parts := all (fun _ => id) items
      refine .of_parts (.of_known ?_ ⟨rfl, rfl, rfl, fun _ => rfl, rfl⟩) parts
      exact Core.knows_lastType built fun item isItem => (parts item isItem).known
  | logic items =>
      refine .of_parts (.of_known (built.knows_prim .bool) ⟨rfl, rfl, rfl, fun _ => rfl, rfl⟩) ?_
      exact all (fun _ => id) (items.imp fun _ _ item => item.1)
  | @when _ _ _ bodyCore test _ body =>
      have parts := all (fun _ => id) (.cons test (.cons body .nil))
      refine .of_parts (.of_known ?_ ⟨rfl, rfl, rfl, fun _ => rfl, rfl⟩) parts
      exact (parts bodyCore (by simp)).known
  | @cond _ _ _ _ yesCore _ test _ yes no =>
      have parts := all (fun _ => id) (.cons test (.cons yes (.cons no .nil)))
      refine .of_parts (.of_known ?_ ⟨rfl, rfl, rfl, fun _ => rfl, rfl⟩) parts
      exact (parts yesCore (by simp)).known
  | «while» test _ body =>
      have parts := all (fun _ => id) (.cons test (.cons body .nil))
      exact .of_parts (.of_known built.knows_void ⟨rfl, rfl, rfl, fun _ => rfl, rfl⟩) parts
  | @switch _ _ _ _ defaultCore _ _ selector _ default arms =>
      have parts := all (fun _ => id) checked.inPlace
      refine .of_parts (.of_known ?_ ⟨rfl, rfl, rfl, fun _ => rfl, rfl⟩) parts
      exact (parts defaultCore (by simp [Core.inPlace])).known
  | @letPar clauses body cores bodyCore clausesChecked bodyChecked =>
      have inits : ∀ core ∈ cores, core.2.Elementary image names := by
        intro core isCore
        obtain ⟨clause, isClause, checked⟩ := exists_related_left clausesChecked isCore
        refine each ?_ checked.checked known
        exact List.mem_append_left _ (List.mem_map_of_mem isClause)
      have whole := each (by simp [children]) bodyChecked (known.bindAll ?_)
      · refine .of_parts (.of_known whole.known ⟨rfl, rfl, rfl, fun _ => rfl, rfl⟩) ?_
        exact List.forall_mem_append.mpr
          ⟨List.forall_mem_map.mpr inits, List.forall_mem_singleton.mpr whole⟩
      · refine List.forall_mem_map.mpr fun core isCore => ?_
        obtain ⟨clause, -, checked⟩ := exists_related_left clausesChecked isCore
        rw [checked.binder]
        exact (inits core isCore).known
  | letSeq clausesChecked bodyChecked =>
      obtain ⟨innerKnown, inits⟩ := clausesChecked.known (fun clause isClause _ _ checked =>
        each (List.mem_append_left _ (List.mem_map_of_mem isClause)) checked) known
      have whole := each (by simp [children]) bodyChecked innerKnown
      refine .of_parts (.of_known whole.known ⟨rfl, rfl, rfl, fun _ => rfl, rfl⟩) ?_
      exact List.forall_mem_append.mpr
        ⟨List.forall_mem_map.mpr inits, List.forall_mem_singleton.mpr whole⟩
  | @loop id name vars ret body cores bodyCore function captures varsChecked named bodyChecked _
      crossing =>
      obtain ⟨retKnown, varsKnown⟩ := List.forall_mem_cons.mp annotated
      have binders : ∀ core ∈ cores, image.knows names core.1.type = true := by
        intro core isCore
        obtain ⟨var, isVar, checked⟩ := exists_related_left varsChecked isCore
        rw [checked.binder]
        exact varsKnown _ (List.mem_map_of_mem isVar)
      have inits : ∀ core ∈ cores, core.2.Elementary image names := by
        intro core isCore
        obtain ⟨var, isVar, checked⟩ := exists_related_left varsChecked isCore
        refine each ?_ checked.checked known
        exact List.mem_append_left _ (List.mem_map_of_mem isVar)
      have few : (cores.map fun core => core.1.type).length < Library.maxDelegateArity := by
        rw [List.length_map, ← varsChecked.length_eq]
        exact of_decide_eq_true isHere
      have delegate := built.knows_delegate few (List.forall_mem_map.mpr binders) retKnown
      have functionKnown : image.knows names function.type = true := by
        rw [named]
        exact delegate
      have outer := known.bind name functionKnown
      have whole := each (by simp [children]) bodyChecked
        (outer.bindAll (List.forall_mem_map.mpr binders))
      refine .of_parts ⟨retKnown, List.forall_mem_map.mpr binders, outer.captures crossing, rfl,
        fun _ => rfl, fun context later growth member isMember => ?_⟩ ?_
      · rcases List.mem_cons.mp isMember with rfl | isCall
        · have isKnown := Image.knows_mono growth _ delegate
          have types : (cores.map fun core => core.1).map Binder.type =
              cores.map fun core => core.1.type := List.map_map
          rw [← types] at isKnown
          exact PlatformMember.delegateCtor_found later isKnown
        · exact PlatformMember.delegateInvoke_found later (Image.knows_mono growth _ functionKnown)
            (Option.mem_toList.mp isCall)
      · exact List.forall_mem_append.mpr
          ⟨List.forall_mem_map.mpr inits, List.forall_mem_singleton.mpr whole⟩
  | @lambda id params body bodyCore captures bodyChecked crossing =>
      have paramsKnown := List.forall_mem_map.mp annotated
      have whole := each List.mem_cons_self bodyChecked
        (known.bindAll (List.forall_mem_map.mpr paramsKnown))
      have types : (params.map fun param =>
          Binder.of body.usage param.name param.type).map Binder.type = params.map Param.type := by
        simp [Binder.of, Function.comp_def]
      have few : (params.map Param.type).length < Library.maxDelegateArity := by
        rw [List.length_map]
        exact of_decide_eq_true isHere
      have delegate := built.knows_delegate few annotated whole.known
      rw [← types] at delegate
      refine .of_parts ⟨delegate, ?_, known.captures crossing, rfl, fun _ => rfl,
        fun context later growth => ?_⟩ (List.forall_mem_singleton.mpr whole)
      · rw [Core.mentioned, types]
        exact annotated
      · refine List.forall_mem_singleton.mpr ?_
        exact PlatformMember.delegateCtor_found later (Image.knows_mono growth _ delegate)
  | invoke functionChecked signature argsChecked _ =>
      have parts := all (fun _ => id) (.cons functionChecked argsChecked)
      have functionKnown := (parts _ List.mem_cons_self).known
      refine .of_parts ⟨(Image.knows_signature built functionKnown signature).2,
        List.forall_mem_nil _, List.forall_mem_nil _, rfl, fun _ => rfl,
        fun context later growth member isMember => ?_⟩ parts
      exact PlatformMember.delegateInvoke_found later (Image.knows_mono growth _ functionKnown)
        (Option.mem_toList.mp isMember)
  | operation isOperation whole =>
      cases expr with
      | unary form operand =>
          cases form with
          | op op =>
              simp only [Checks, elaborate, TypeContext.unaryCore, bind_eq_ok, pure_eq_ok] at whole
              obtain ⟨part, checkedPart, ⟨type, action⟩, means, rfl⟩ := whole
              have parts := all (fun _ => id) (.cons checkedPart .nil)
              obtain ⟨rfl, none, untyped⟩ := Operators.unary_elementary isHere means
              refine .of_parts (.of_known (parts _ List.mem_cons_self).known
                ⟨untyped, rfl, rfl, fun _ => rfl, none⟩) parts
          | _ => cases isHere
      | binary form left right =>
          cases form with
          | op op =>
              simp only [Checks, elaborate, TypeContext.binaryCore, bind_eq_ok, pure_eq_ok] at whole
              obtain ⟨first, checkedLeft, second, checkedRight, ⟨type, action⟩, means, rfl⟩ := whole
              have parts := all (fun _ => id) (.cons checkedLeft (.cons checkedRight .nil))
              obtain ⟨isType, untyped, joins⟩ := Operators.binary_elementary isHere means
              refine .of_parts ⟨?_, by simp [Core.mentioned, untyped], List.forall_mem_nil _, rfl, fun _ => rfl,
                fun context later growth member isMember => ?_⟩ parts
              · rcases isType with rfl | rfl
                · exact (parts _ List.mem_cons_self).known
                · exact built.knows_prim .bool
              · rw [joins member isMember]
                exact PlatformMember.concat_found later
          | _ => cases isHere
      | ternary | staticField | staticProperty | staticCall | call | new => cases isHere
      | _ => cases isOperation
  | letRec | tryCatch | tryFinally | pin => cases isHere

end Expr

end ClassForge
