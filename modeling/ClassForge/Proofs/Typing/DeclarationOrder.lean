import ClassForge.Proofs.Schedule.CanonicalOrder
import ClassForge.Proofs.Typing.MemberNames
import ClassForge.Proofs.Typing.ReorderedPrograms

/-!
# The order of declarations

Handles are given out in the order in which the steps of a build run, and that order goes by
the labels of the steps.  A module whose steps have different labels is compiled to the same
image in whatever order its classes and members are written.  Labels are texts made from the
names of classes, members and types, and different members can have the same one; then the
order of declarations decides.
-/

namespace ClassForge

open Schedule

variable {options : CompileOptions}

/-- Programs that the same tasks build, under different labels, are built the same. -/
theorem Program.build_shuffled {program shuffled : Program} {image built : Image}
    {compiled : CompiledModule} (perm : shuffled.tasks.Perm program.tasks)
    (distinct : (program.tasks.map Task.label).Nodup)
    (builds : program.build options image = (.ok compiled, built)) :
    shuffled.build options image = (.ok compiled, built) := by
  have validated : validate (program.steps options.tailCalls)
      (BuildState.initial image).resolution = .ok () := by
    cases checked : validate (program.steps options.tailCalls) .empty with
    | ok => exact checked
    | error diagnostic =>
        rw [Program.build_of_invalid checked] at builds
        cases builds
  have sameLabels : (program.steps options.tailCalls).map Step.label =
      program.tasks.map Task.label := by
    simp [Program.steps, Task.step, Step.make]
  have sameRun : (performAll (shuffled.steps options.tailCalls) (.initial image)).2 =
      (performAll (program.steps options.tailCalls) (.initial image)).2 :=
    (performAll_shuffled (perm.map _) (disjoint_of_validate validated) (sameLabels ▸ distinct)
      validated).2
  rw [← builds, Program.build_eq, Program.build_eq, run_eq_performAll, run_eq_performAll, sameRun]

/-- A module that was compiled, and whose build steps have different labels, is compiled to
the same image and the same compiled module in every other order of its declarations. -/
theorem Module.compile_reordered (module other : Module) (options : CompileOptions)
    (image built : Image) (compiled : CompiledModule) (reordered : module.Reordered other)
    (compiles : module.compile options image = (.ok compiled, built))
    (distinct : ∀ program, module.check image = .ok program →
      (program.tasks.map Task.label).Nodup) :
    other.compile options image = (.ok compiled, built) := by
  cases checked : module.check image with
  | error diagnostic =>
      simp only [Module.compile, checked] at compiles
      cases compiles
  | ok program =>
      rw [Module.compile_of_check checked] at compiles
      obtain ⟨context, accepted⟩ := Module.accepted_of_check checked
      have unique : ∀ symbols, Symbols.ofModule module = .ok symbols → symbols.UniqueNames := by
        intro symbols collected
        rw [accepted.symbols] at collected
        cases collected
        cases ran : (schedule (program.steps options.tailCalls)).run (.initial image) with
        | ok value final => exact accepted.uniqueNames ran
        | error diagnostic final =>
            rw [Program.build_eq, ran] at compiles
            cases compiles
      obtain ⟨shuffled, otherChecked, perm⟩ := reordered.check checked unique
      rw [Module.compile_of_check otherChecked]
      exact Program.build_shuffled perm (distinct program checked) compiles

/-! ## Modules in two orders -/

/-- A class with some static methods, each of which takes a `Z` and gives a number. -/
def ClassDef.ofNumbers (name : Name) (methods : List (Name × Int32)) : ClassDef where
  name := name
  attrs := .publicClass
  base := none
  interfaces := []
  fields := []
  methods := methods.map fun (method, number) =>
    { name := method
      attrs := .publicStatic
      params := [⟨"z", .declared "Z"⟩]
      ret := .int32
      body := some (.literal (.int32 number)) }
  ctors := []
  properties := []

theorem ClassDef.Reordered.refl (cls : ClassDef) : cls.Reordered cls :=
  ⟨rfl, rfl, rfl, rfl, .refl _, .refl _, .refl _, .refl _⟩

theorem Module.exists_compile_eq {module : Module} {image : Image}
    (succeeds : (module.compile options image).1.isOk = true) : ∃ compiled,
      module.compile options image = (.ok compiled, (module.compile options image).2) := by
  obtain ⟨compiled, isCompiled⟩ := exists_ok_of_isOk succeeds
  exact ⟨compiled, Prod.ext isCompiled rfl⟩

theorem Module.counter_compiles : ∃ compiled,
    Module.counter.compile {} .library = (.ok compiled, (counter.compile {} .library).2) := by
  refine exists_compile_eq ?_
  decide +kernel

/-- A class with two methods before a class that they mention. -/
def Module.forwards : Module where
  classes := [.ofNumbers "A" [("f", 1), ("g", 2)], .ofNumbers "Z" []]

/-- The same with classes and methods in the opposite order. -/
def Module.backwards : Module where
  classes := [.ofNumbers "Z" [], .ofNumbers "A" [("g", 2), ("f", 1)]]

theorem Module.backwards_compiles_as_forwards :
    Module.forwards.Reordered .backwards ∧
      ∃ compiled built, Module.forwards.compile {} .library = (.ok compiled, built) ∧
        Module.backwards.compile {} .library = (.ok compiled, built) := by
  have reordered : Module.forwards.Reordered .backwards := by
    refine ⟨_, .swap _ _ _, .cons (.refl _) (.cons ?_ .nil)⟩
    exact ⟨rfl, rfl, rfl, rfl, .refl _, .swap _ _ _, .refl _, .refl _⟩
  have distinct : (Module.forwards.check .library).toOption.all
      (fun program => decide (program.tasks.map Task.label).Nodup) = true := by
    decide +kernel
  have succeeds : (Module.forwards.compile {} .library).1.isOk = true := by
    decide +kernel
  obtain ⟨compiled, compiles⟩ := Module.exists_compile_eq succeeds
  refine ⟨reordered, compiled, _, compiles, ?_⟩
  refine Module.compile_reordered _ _ _ _ _ _ reordered compiles fun program checked => ?_
  simpa [checked, Except.toOption] using distinct

/-- Two methods whose keys have the same text, since a class and a method have a dot in their
names. -/
def Module.dotted : Module where
  classes := [.ofNumbers "A" [("B.f", 1)], .ofNumbers "A.B" [("f", 2)], .ofNumbers "Z" []]

/-- The same with the first two classes in the opposite order. -/
def Module.dottedSwapped : Module where
  classes := [.ofNumbers "A.B" [("f", 2)], .ofNumbers "A" [("B.f", 1)], .ofNumbers "Z" []]

/-- The two methods are waiting for `Z`, with the same label, and are declared in the order of
the module. -/
theorem Module.dotted_order_matters :
    Module.dotted.Reordered .dottedSwapped ∧
      (Module.dotted.compile {} .library).1.isOk = true ∧
      (Module.dottedSwapped.compile {} .library).2 ≠ (Module.dotted.compile {} .library).2 := by
  have reordered : Module.dotted.Reordered .dottedSwapped :=
    ⟨_, .swap _ _ _, .cons (.refl _) (.cons (.refl _) (.cons (.refl _) .nil))⟩
  have results : (Module.dotted.compile {} .library).1.isOk = true ∧
      ((Module.dotted.compile {} .library).2.method? ⟨56⟩).map MethodInfo.name = some "B.f" ∧
      ((Module.dottedSwapped.compile {} .library).2.method? ⟨56⟩).map MethodInfo.name =
        some "f" := by
    decide +kernel
  obtain ⟨succeeds, first, swappedFirst⟩ := results
  refine ⟨reordered, succeeds, fun same => ?_⟩
  rw [same, first] at swappedFirst
  exact absurd swappedFirst (by decide)

end ClassForge
