import ClassForge.Proofs.Build.Realization

/-!
# Members that a build has defined

A build that is finished has run every task at some point.  The code that it generated for a method
or a constructor then is the code that the member has in the end.
-/

namespace ClassForge

/-! ## Code -/

/-- Code that a member has is not replaced. -/
theorem Implementation.Grows.code {before after : Implementation} {body : Body}
    (grows : before.Grows after) (isCode : before = .code body) : after = .code body := by
  rcases grows with same | ⟨missing, -⟩
  · exact same.trans isCode
  · cases isCode.symm.trans missing

namespace Image

variable {image extended : Image} {handle : MethodHandle} {body : Body}

/-- Code that a method has stays when an image grows. -/
theorem Extends.methodCode {info : MethodInfo} (growth : image.Extends extended)
    (isMethod : image.method? handle = some info) (isCode : info.implementation = .code body) :
    ∃ later, extended.method? handle = some later ∧ later.implementation = .code body ∧
      later.attrs = info.attrs := by
  obtain ⟨later, isLater, grows⟩ := growth.methods _ info isMethod
  exact ⟨later, isLater, grows.implementation.code isCode, grows.attrs⟩

/-- Code that a constructor has stays when an image grows. -/
theorem Extends.ctorCode {handle : CtorHandle} {info : CtorInfo} (growth : image.Extends extended)
    (isCtor : image.ctor? handle = some info) (isCode : info.implementation = .code body) :
    ∃ later, extended.ctor? handle = some later ∧ later.implementation = .code body := by
  obtain ⟨later, isLater, grows⟩ := growth.ctors _ info isCtor
  exact ⟨later, isLater, grows.implementation.code isCode⟩

/-- A method has the code that was defined for it. -/
theorem method?_defineMethod (done : image.defineMethod handle body = .ok extended) :
    ∃ info, extended.method? handle = some info ∧ info.implementation = .code body := by
  obtain ⟨info, _, isMethod, -, -, rfl⟩ := defineMethod_shape done
  have found : image.methods[handle.index]? = some info := isMethod
  refine ⟨{ info with implementation := .code body }, ?_, rfl⟩
  rw [method?, Array.getElem?_modify, if_pos rfl, found, Option.map_some]

/-- A constructor has the code that was defined for it. -/
theorem ctor?_defineCtor {handle : CtorHandle} (done : image.defineCtor handle body = .ok extended) :
    ∃ info, extended.ctor? handle = some info ∧ info.implementation = .code body := by
  obtain ⟨info, _, isCtor, -, -, rfl⟩ := defineCtor_shape done
  have found : image.ctors[handle.index]? = some info := isCtor
  refine ⟨{ info with implementation := .code body }, ?_, rfl⟩
  rw [ctor?, Array.getElem?_modify, if_pos rfl, found, Option.map_some]

end Image

/-! ## Tasks -/

open Schedule

variable {program : Program} {tailCalls : Bool} {start state : BuildState Image}
variable {done : List (Step Image)}

variable (runs : Runs (program.steps tailCalls) start done state)
include runs

/-- A task whose step has been done was carried out at some point. -/
theorem Schedule.Runs.exists_ran {task : Task} (isDone : task.step tailCalls ∈ done) :
    ∃ before after, Build.Moves start before ∧ (task.action tailCalls).run before = .ok () after ∧
      after.Extends state := by
  induction runs with
  | start => cases isDone
  | @step done middle after step soFar turn ran ih =>
      obtain ⟨other, -, rfl⟩ := Program.mem_steps.mp turn.member
      have acted := (runStep_eq_ok ran).1
      rcases List.mem_append.mp isDone with early | late
      · obtain ⟨before, middle, moves, ranThen, growth⟩ := ih early
        exact ⟨before, middle, moves, ranThen, growth.trans (Task.action_moves acted).1.extends'⟩
      · rw [← List.mem_singleton.mp late] at ran
        exact ⟨_, _, soFar.realized.1, (runStep_eq_ok ran).1, .refl _⟩

/-- A method that a build has defined has the code that was generated for it. -/
theorem Schedule.Runs.method_defined {host : Name} {key : MethodKey} {source : MethodSource}
    (isDone : (Task.defineMethod host key source).step tailCalls ∈ done) :
    ∃ before : BuildState Image, ∃ handle info body, Build.Moves start before ∧
      before.Extends state ∧ source.code ⟨before.target, before.resolution, host, tailCalls⟩ =
        .ok body ∧ state.resolution.method key = .ok handle ∧
          state.target.method? handle = some info ∧ info.implementation = .code body := by
  obtain ⟨before, after, early, ran, growth⟩ := runs.exists_ran isDone
  have moves := (Task.action_moves ran).1.extends'
  cases Task.carried ran with | defineMethod generated isMethod defined => ?_
  obtain ⟨info, isInfo, isCode⟩ := Image.method?_defineMethod defined
  obtain ⟨last, isLast, isLastCode, -⟩ := growth.target.methodCode isInfo isCode
  exact ⟨_, _, last, _, early, moves.trans growth, generated,
    growth.resolution.method isMethod, isLast, isLastCode⟩

/-- A constructor that a build has defined has the code that was generated for it. -/
theorem Schedule.Runs.ctor_defined {host : Name} {key : CtorKey} {source : CtorSource}
    (isDone : (Task.defineCtor host key source).step tailCalls ∈ done) :
    ∃ before : BuildState Image, ∃ handle info body, Build.Moves start before ∧
      before.Extends state ∧ source.code ⟨before.target, before.resolution, host, tailCalls⟩ =
        .ok body ∧ state.resolution.ctor key = .ok handle ∧
          state.target.ctor? handle = some info ∧ info.implementation = .code body := by
  obtain ⟨before, after, early, ran, growth⟩ := runs.exists_ran isDone
  have moves := (Task.action_moves ran).1.extends'
  cases Task.carried ran with | defineCtor generated isCtor defined => ?_
  obtain ⟨info, isInfo, isCode⟩ := Image.ctor?_defineCtor defined
  obtain ⟨last, isLast, isLastCode⟩ := growth.target.ctorCode isInfo isCode
  exact ⟨_, _, last, _, early, moves.trans growth, generated,
    growth.resolution.ctor isCtor, isLast, isLastCode⟩

end ClassForge
