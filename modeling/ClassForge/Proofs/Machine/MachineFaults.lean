import ClassForge.Machine.Run
import ClassForge.Proofs.Code.StackEffects

/-!
# Faults of control

Among the ways in which code can be malformed, some concern control alone: the stack runs out
of values, control leaves the body, a branch leads nowhere, or a virtual call has no receiver.
Whatever values they work on, the actions of the machine that do not touch the stack of a
frame break off for none of these reasons.
-/

namespace ClassForge

variable {type : RunTy}

/-- The stack is too small, or control goes where there is no code. -/
def Malformation.OfControl : Malformation → Prop
  | stackUnderflow | unmarkedLabel _ | pastEnd | callWithoutReceiver => True
  | _ => False

/-- A run breaks off where its control goes wrong. -/
def RunError.OfControl : RunError → Prop
  | invalidProgram cause => cause.OfControl
  | _ => False

/-- A computation breaks off where its control goes wrong. -/
def Trap.OfControl : Trap → Prop
  | fatal error => error.OfControl
  | throw _ => False

/-- An action ends with a value that has a property, or it breaks off for no fault of
control. -/
def Exec.Ends {α : Type} (action : Exec α) (post : α → Prop) : Prop :=
  ∀ store, match action.run store with
    | .ok value _ => post value
    | .error trap _ => ¬ trap.OfControl

/-- An action never breaks off for a fault of control. -/
abbrev Exec.Benign {α : Type} (action : Exec α) : Prop :=
  action.Ends fun _ => True

namespace Exec.Ends

variable {α β : Type} {post : α → Prop}
variable {cause : Malformation}

theorem pure {value : α} (holds : post value) : Exec.Ends (pure value) post :=
  fun _ => holds

theorem bind {action : Exec α} {next : α → Exec β} {between : α → Prop} {post : β → Prop}
    (first : action.Ends between) (second : ∀ value, between value → (next value).Ends post) :
    Exec.Ends (action >>= next) post := by
  intro store
  have ends := first store
  rw [EStateM.run_bind]
  cases ran : action.run store with
  | ok value after =>
      rw [ran] at ends
      exact second value ends after
  | error trap after =>
      rw [ran] at ends
      exact ends

/-- The value of the first action does not matter for the second one. -/
theorem andThen {action : Exec α} {next : α → Exec β} {post : β → Prop}
    (first : action.Benign) (second : ∀ value, (next value).Ends post) :
    Exec.Ends (action >>= next) post :=
  first.bind fun value _ => second value

theorem imp {action : Exec α} {weaker : α → Prop} (ends : action.Ends post)
    (implies : ∀ value, post value → weaker value) : action.Ends weaker := by
  intro store
  have ends := ends store
  revert ends
  cases action.run store with
  | ok value after => exact implies value
  | error trap after => exact id

/-- Breaking off with an exception or with an error that is no fault of control. -/
theorem throw {trap : Trap} (benign : ¬ trap.OfControl) : Exec.Ends (throw trap) post :=
  fun _ => benign

theorem malformed (benign : ¬ cause.OfControl) :
    (Exec.malformed cause : Exec α).Ends post :=
  throw benign

theorem require {value? : Option α} (benign : ¬ cause.OfControl) :
    (Exec.require value? cause).Benign := by
  cases value? with
  | none => exact malformed benign
  | some value => exact pure trivial

theorem ofImage {result : Except ImageError α}
    (holds : ∀ value, result = .ok value → post value) : (Exec.ofImage result).Ends post := by
  cases result with
  | error => exact throw id
  | ok value => exact pure (holds value rfl)

theorem get : Exec.Benign (get : Exec Store) :=
  fun _ => trivial

theorem modify {change : Store → Store} : Exec.Benign (modify change : Exec Unit) :=
  fun _ => trivial

theorem onHeap {action : Heap → α × Heap} : (Exec.onHeap action).Benign :=
  fun _ => trivial

theorem mapM {items : List α} {action : α → Exec β} (each : ∀ item, (action item).Benign) :
    (items.mapM action).Ends fun values => values.length = items.length := by
  induction items with
  | nil => exact pure rfl
  | cons item items ih =>
      rw [List.mapM_cons]
      refine (each item).andThen fun value => ih.bind fun values count => ?_
      exact pure (by simp [count])

end Exec.Ends

/-! ## The object model -/

namespace Exec

variable {image : Image} {value : Value}
variable {exception : SystemException}
variable {handle : TypeHandle}

theorem heap_benign : Exec.heap.Benign :=
  fun _ => trivial

theorem ofImage_benign {α : Type} {result : Except ImageError α} : (ofImage result).Benign :=
  .ofImage fun _ _ => trivial

theorem modifyHeap_benign {change : Heap → Heap} : (modifyHeap change).Benign :=
  .modify

theorem copy_benign : (copy value).Benign := by
  unfold copy
  split
  · exact .onHeap
  · exact .pure trivial

theorem isInstance_benign : (isInstance image value type).Benign :=
  heap_benign.andThen fun _ => ofImage_benign

theorem defaultValue_benign : (defaultValue image type).Benign :=
  .onHeap

theorem allocInstance_benign : (allocInstance image handle).Benign := by
  refine ofImage_benign.andThen fun info => ?_
  split
  · exact .onHeap
  · exact .throw id

theorem allocate_benign : (allocate image handle).Benign :=
  allocInstance_benign.andThen fun _ => .pure trivial

theorem raise_ends {α : Type} {post : α → Prop} : (raise image exception : Exec α).Ends post := by
  unfold raise
  split
  · exact .malformed id
  · exact allocInstance_benign.andThen fun _ => modifyHeap_benign.andThen fun _ => .throw id

/-- What would come after an exception does not matter. -/
theorem raise_bind_ends {α β : Type} {post : β → Prop} {next : α → Exec β} :
    (raise image exception >>= next).Ends post :=
  Ends.bind (raise_ends : (raise image exception).Ends fun _ => False) fun _ never => never.elim

theorem raise_bind_ne_ok {α β : Type} {next : α → Exec β} {store last : Store} {value : β} :
    (raise image exception >>= next).run store ≠ .ok value last := by
  intro ran
  have ends := (raise_bind_ends : (raise image exception >>= next).Ends fun _ => False) store
  rw [ran] at ends
  exact ends

theorem ofArith_benign {α : Type} {result : Except ArithError α} :
    (ofArith image result).Benign := by
  unfold ofArith
  split
  · exact .pure trivial
  · exact raise_ends
  · exact raise_ends
  · exact .malformed id
  · exact .malformed id
  · exact .malformed id

end Exec

/-! ## Instructions without the stack -/

namespace FrameStep

open Exec

variable {image : Image} {value left right : Value}
variable {field : FieldHandle}

theorem addressOperand_benign : (addressOperand value).Benign := by
  unfold addressOperand
  split
  · exact .pure trivial
  · exact .pure trivial
  · exact .pure trivial
  · exact .malformed id

theorem countOperand_benign : (countOperand value).Benign :=
  (Ends.require id).andThen fun _ => .pure trivial

theorem lengthOperand_benign : (lengthOperand image value).Benign := by
  refine (Ends.require id).andThen fun length => ?_
  dsimp only
  split
  · exact raise_bind_ends
  · exact .pure trivial

theorem indexOperand_benign {length : Nat} : (indexOperand image value length).Benign := by
  refine (Ends.require id).andThen fun index => ?_
  dsimp only
  split
  · exact raise_bind_ends
  · exact .pure trivial

theorem arrayOperand_benign : (arrayOperand image value).Benign := by
  unfold arrayOperand
  split
  · exact raise_ends
  · refine heap_benign.andThen fun heap => ?_
    split
    · exact .pure trivial
    · exact .malformed id
  · exact .malformed id

theorem instanceOperand_benign : (instanceOperand image value).Benign := by
  unfold instanceOperand
  split
  · exact raise_bind_ends
  · refine heap_benign.andThen fun heap => ?_
    split
    · exact .pure trivial
    · exact .malformed id

theorem loadField_benign : (loadField image field value).Benign :=
  ofImage_benign.andThen fun _ => instanceOperand_benign.andThen fun _ => .require id

theorem storeField_benign : (storeField image field left right).Benign := by
  refine ofImage_benign.andThen fun info => copy_benign.andThen fun stored => ?_
  refine instanceOperand_benign.andThen fun _ => ?_
  dsimp only
  split
  · exact modifyHeap_benign
  · exact .malformed id

theorem loadStatic_benign : (loadStatic image field).Benign :=
  ofImage_benign.andThen fun _ => Ends.get.andThen fun _ => .require id

theorem storeStatic_benign : (storeStatic image field value).Benign := by
  refine copy_benign.andThen fun stored => ofImage_benign.andThen fun info => ?_
  refine Ends.get.andThen fun store => ?_
  split
  · exact .modify
  · exact .malformed id

theorem newArray_benign {element : RunTy} {length : Nat} :
    (newArray image element length).Benign := by
  have allocates : ∀ data : ArrayData, Exec.Benign (do
      return Value.ref (← Exec.alloc (.array element data 0))) := fun _ =>
    Ends.onHeap.andThen fun _ => .pure trivial
  unfold newArray
  split
  · exact Ends.andThen (.pure trivial) allocates
  · refine (Ends.mapM fun _ => defaultValue_benign).bind fun items _ => ?_
    exact Ends.andThen (.pure trivial) allocates

theorem loadElement_benign : (loadElement image left right).Benign := by
  refine arrayOperand_benign.andThen fun found => ?_
  refine indexOperand_benign.andThen fun index => ?_
  split
  · exact .require id
  · exact .require id

theorem storeElement_benign : (storeElement image left right value).Benign := by
  refine copy_benign.andThen fun stored => arrayOperand_benign.andThen fun found => ?_
  refine indexOperand_benign.andThen fun index => ?_
  split
  · exact (Ends.require id).andThen fun _ => modifyHeap_benign
  · exact modifyHeap_benign

theorem elementAddress_benign : (elementAddress image left right).Benign := by
  refine arrayOperand_benign.andThen fun found => ?_
  obtain ⟨object, data⟩ := found
  cases data with
  | bytes => exact indexOperand_benign.andThen fun _ => .pure trivial
  | values => exact .malformed id

theorem accessMemory_benign {change : Heap → Option Heap} : (accessMemory image change).Benign := by
  refine heap_benign.andThen fun heap => ?_
  split
  · exact modifyHeap_benign
  · exact raise_ends

theorem loadIndirect_benign {prim : Prim} : (loadIndirect image prim value).Benign := by
  refine addressOperand_benign.andThen fun address => heap_benign.andThen fun heap => ?_
  split
  · exact .pure trivial
  · exact raise_ends

theorem storeIndirect_benign {prim : Prim} : (storeIndirect image prim left right).Benign :=
  addressOperand_benign.andThen fun _ => accessMemory_benign

theorem copyBlock_benign : (copyBlock image left right value).Benign := by
  refine countOperand_benign.andThen fun count => ?_
  split
  · exact addressOperand_benign.andThen fun _ => addressOperand_benign.andThen fun _ =>
      accessMemory_benign
  · exact .pure trivial

theorem fillBlock_benign : (fillBlock image left right value).Benign := by
  refine countOperand_benign.andThen fun count => (Ends.require id).andThen fun byte => ?_
  dsimp only
  split
  · exact addressOperand_benign.andThen fun _ => accessMemory_benign
  · exact .pure trivial

theorem convert_benign {conversion : Conversion} : (convert image conversion value).Benign := by
  unfold convert
  split
  · split
    · exact .pure trivial
    · exact ofArith_benign
  · exact ofArith_benign

theorem box_benign : (box image type value).Benign := by
  unfold box
  split
  · exact ofImage_benign.andThen fun _ => copy_benign.andThen fun _ => Ends.onHeap.andThen fun _ =>
      .pure trivial
  · exact .pure trivial

theorem castClass_benign : (castClass image type value).Benign := by
  unfold castClass
  split
  · exact .pure trivial
  · refine isInstance_benign.andThen fun isInstance => ?_
    split
    · exact .pure trivial
    · exact raise_ends

theorem unbox_benign : (unbox image type value).Benign := by
  unfold unbox
  split
  · exact castClass_benign
  · refine ofImage_benign.andThen fun handle => ?_
    dsimp only
    split
    · exact raise_bind_ends
    · refine heap_benign.andThen fun heap => ?_
      split
      · split
        · exact copy_benign
        · exact raise_ends
      · exact raise_ends

end FrameStep

/-! ## Built-in members -/

namespace Native

open Exec

variable {image : Image} {args : List Value} {index : Nat}

theorem arg_benign : (arg args index).Benign :=
  .require id

theorem floatArg_benign : (floatArg args index).Benign :=
  arg_benign.andThen fun _ => .require id

theorem intArg_benign : (intArg args index).Benign :=
  arg_benign.andThen fun _ => .require id

theorem print_benign {text : String} : (print text).Benign :=
  Ends.modify.andThen fun _ => .pure trivial

theorem setMessage_benign {object? : Option ObjRef} {text : String} :
    Exec.Benign (do
      if let some object := object? then
        Exec.setMessage object text
      return Outcome.value .null) := by
  cases object? with
  | none => exact .pure trivial
  | some object => exact modifyHeap_benign.andThen fun _ => .pure trivial

/-- No built-in member has a fault of control. -/
theorem run_benign {native : Native} : (native.run image args).Benign := by
  cases native with
  | objectCtor | cellCtorEmpty => exact .pure trivial
  | objectText => exact heap_benign.andThen fun _ => arg_benign.andThen fun _ => .pure trivial
  | concat =>
      exact heap_benign.andThen fun _ => arg_benign.andThen fun _ => arg_benign.andThen fun _ =>
        .pure trivial
  | textLength =>
      refine arg_benign.andThen fun value => ?_
      split
      · exact .pure trivial
      · exact raise_ends
  | write => exact heap_benign.andThen fun _ => arg_benign.andThen fun _ => print_benign
  | writeEmptyLine => exact print_benign
  | math => exact floatArg_benign.andThen fun _ => .pure trivial
  | math₂ => exact floatArg_benign.andThen fun _ => floatArg_benign.andThen fun _ => .pure trivial
  | intAbs wide =>
      have answers : ∀ least value : Int64, Exec.Benign (if value = least then raise image .overflow
          else return intResult wide (if value < 0 then -value else value)) := by
        intro least value
        split
        · exact raise_ends
        · exact .pure trivial
      exact intArg_benign.andThen fun _ => answers _ _
  | intMin | intMax =>
      exact intArg_benign.andThen fun _ => intArg_benign.andThen fun _ => .pure trivial
  | exceptionCtor =>
      exact arg_benign.andThen fun _ => heap_benign.andThen fun _ => setMessage_benign
  | exceptionCtorMessage =>
      exact arg_benign.andThen fun _ => arg_benign.andThen fun _ => heap_benign.andThen fun _ =>
        setMessage_benign
  | exceptionMessage =>
      exact arg_benign.andThen fun _ => heap_benign.andThen fun _ => .pure trivial
  | cellCtor =>
      refine arg_benign.andThen fun cell => arg_benign.andThen fun _ => copy_benign.andThen
        fun content => heap_benign.andThen fun heap => ?_
      have fills : ∀ object : ObjRef, Exec.Benign (do
          Exec.modifyHeap fun heap => heap.setField object 0 content
          return Outcome.value .null) := fun _ => modifyHeap_benign.andThen fun _ => .pure trivial
      split
      · dsimp only
        split
        · exact Ends.andThen (.malformed id) fun _ => fills _
        · exact fills _
      · exact .malformed id
  | delegateCtor =>
      refine arg_benign.andThen fun delegate => arg_benign.andThen fun target =>
        arg_benign.andThen fun method => ?_
      split
      · refine heap_benign.andThen fun heap => ?_
        split
        · exact modifyHeap_benign.andThen fun _ => .pure trivial
        · exact .malformed id
      · exact .malformed id
  | delegateInvoke =>
      refine heap_benign.andThen fun heap => arg_benign.andThen fun delegate => ?_
      split
      · exact ofImage_benign.andThen fun _ => .pure trivial
      · exact raise_ends

end Native

end ClassForge
