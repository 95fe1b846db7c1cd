import ClassForge.Proofs.Try.TryEvaluation

/-!
# Runs of a `try` block

A run of a block is followed as long as the block is active, and it is noted whenever control comes
into a part of it from elsewhere.  What has been noted decides the stage that the run is at: the
body has begun once, then one handler at most, then the final part, if there is one.
-/

namespace ClassForge

/-! ## Active frames -/

namespace Machine.Seat

variable {seat : Seat} {config : Config} {frame other : Frame} {least : Nat} {base : Frame}
variable {extent : Extent}

/-- The frame of a seat runs, or waits for what it has called. -/
inductive Active (seat : Seat) : Config → Frame → Prop
  | executes (frame : Frame) (store : Store) :
      Active seat ⟨.execute frame seat.isCtor, seat.levels, seat.room, store⟩ frame
  | waits (focus : Focus) (above : List Level) (frame : Frame) (onReturn : OnReturn) (room : Nat)
      (store : Store) :
      Active seat ⟨focus, above ++ .caller frame seat.isCtor onReturn :: seat.levels, room, store⟩
        frame

theorem Active.unique (first : seat.Active config frame) (second : seat.Active config other) :
    frame = other := by
  cases first with
  | executes _ store =>
      generalize isConfig : Config.mk (.execute frame seat.isCtor) seat.levels seat.room store =
        config at second
      cases second with
      | executes =>
          cases isConfig
          rfl
      | waits =>
          have lengths := congrArg (List.length ∘ Config.levels) isConfig
          simp at lengths
          omega
  | waits focus above _ onReturn room store =>
      generalize isConfig : Config.mk focus
        (above ++ .caller frame seat.isCtor onReturn :: seat.levels) room store = config at second
      cases second with
      | executes =>
          have lengths := congrArg (List.length ∘ Config.levels) isConfig
          simp at lengths
          omega
      | waits otherFocus otherAbove _ otherReturn otherRoom otherStore =>
          have levels : above ++ .caller frame seat.isCtor onReturn :: seat.levels =
              otherAbove ++ .caller other seat.isCtor otherReturn :: seat.levels :=
            congrArg Config.levels isConfig
          have same := (List.append_inj' levels rfl).2
          cases same
          rfl

/-- A frame with a part is active while control is in the part. -/
theorem Hosts.active (hosts : seat.Hosts least base extent config) :
    ∃ frame, seat.Active config frame ∧ base.Alike least frame ∧
      extent.start ≤ frame.position ∧ frame.position ≤ extent.done := by
  cases hosts with
  | executes alike start done => exact ⟨_, .executes _ _, alike, start, done⟩
  | waits alike start done => exact ⟨_, .waits _ _ _ _ _ _, alike, Nat.le_of_lt start, done⟩

end Machine.Seat

namespace TryStart

variable {image : Image} (start : TryStart image)

/-- Control is in a part of a block. -/
def StandsIn (extent : Extent) (config : Config) : Prop :=
  ∃ frame, start.seat.Active config frame ∧
    extent.start ≤ frame.position ∧ frame.position ≤ extent.exit

/-- A run of a block up to a configuration, with the parts that control has come into. -/
inductive Evaluates : List Extent → Config → Prop
  | begins : Evaluates [start.layout.guarded] start.config
  | starts {begun : List Extent} {config next : Config} {extent : Extent}
      (run : Evaluates begun config) (active : ∃ frame, start.seat.Active config frame)
      (isNext : Machine.step image start.limit config = .running next)
      (isExtent : extent ∈ start.layout.extents) (outside : ¬ start.StandsIn extent config)
      (inside : start.StandsIn extent next) : Evaluates (begun ++ [extent]) next
  | goesOn {begun : List Extent} {config next : Config}
      (run : Evaluates begun config) (active : ∃ frame, start.seat.Active config frame)
      (isNext : Machine.step image start.limit config = .running next)
      (stays : ∀ extent ∈ start.layout.extents,
        start.StandsIn extent next → start.StandsIn extent config) : Evaluates begun next

/-- The block was over on the way to a configuration, when some parts had begun. -/
def Passed (config : Config) : Prop :=
  ∃ begun result frame store, start.Delivers begun result frame store ∧
    start.Evaluates begun (start.delivering result store) ∧
      Machine.Reaches image start.limit (start.delivering result store) config

variable {start} {begun : List Extent} {place : Option Extent} {config : Config} {frame : Frame}
variable {extent other : Extent} {result : Except Value Value} {store : Store}

/-! ## Where control is -/

theorem executing_active : start.seat.Active (start.executing frame store) frame :=
  .executes frame store

/-- Nothing of a block is active once it is over. -/
theorem not_active_over : ¬ start.seat.Active (start.delivering result store) frame := by
  intro active
  generalize isConfig : start.delivering result store = config at active
  cases active with
  | executes => cases result <;> cases isConfig
  | waits =>
      have lengths := congrArg (List.length ∘ Config.levels) isConfig
      cases result <;>
      · simp [delivering] at lengths
        omega

/-- Control is in one part only. -/
theorem StandsIn.unique (first : start.StandsIn extent config)
    (second : start.StandsIn other config) (isExtent : extent ∈ start.layout.extents)
    (isOther : other ∈ start.layout.extents) : extent = other := by
  obtain ⟨frame, active, fromFirst, toFirst⟩ := first
  obtain ⟨_, also, fromSecond, toSecond⟩ := second
  obtain rfl := active.unique also
  by_contra differs
  have apart : start.layout.extents.Pairwise fun earlier later =>
      earlier.exit < later.start ∨ later.exit < earlier.start :=
    start.fits.ordered.imp .inl
  have symmetric : Std.Symm fun earlier later : Extent =>
      earlier.exit < later.start ∨ later.exit < earlier.start := ⟨fun _ _ => Or.symm⟩
  rcases apart.forall isExtent isOther differs with before | after
  · omega
  · omega

theorem standsIn_of_hosts {least : Nat} {base : Frame} {body : Body} {glue : List Instr}
    {exit : Instr} (hosts : start.seat.Hosts least base extent config)
    (part : body.HasPart least extent glue exit) : start.StandsIn extent config := by
  obtain ⟨frame, active, -, from', upTo⟩ := hosts.active
  exact ⟨frame, active, from', upTo.trans part.done_le⟩

theorem standsIn_exit {body : Body} {least : Nat} {glue : List Instr} {exit : Instr}
    {stack : List Value} (part : body.HasPart least extent glue exit) :
    start.StandsIn extent (start.executing { frame with position := extent.exit, stack } store) :=
  ⟨_, executing_active, part.starts.trans part.done_le, Nat.le_refl _⟩

theorem mem_extents_of_final (isFinal : start.layout.final = some extent) :
    extent ∈ start.layout.extents :=
  List.mem_append_right _ (Option.mem_toList.mpr isFinal)

/-- The part that a stage is at is the one that control is in. -/
theorem Stage.standsIn (stage : start.Stage begun (some extent) config) :
    extent ∈ start.layout.extents ∧ start.StandsIn extent config := by
  generalize isPlace : some extent = place at stage
  cases stage with
  | guarded guards =>
      cases isPlace
      exact ⟨List.mem_cons_self, standsIn_of_hosts guards.hosts start.fits.guarded⟩
  | handler handles =>
      cases isPlace
      have isPart : start.layout.IsPart extent := .inr handles.isPart
      exact ⟨isPart.mem, standsIn_of_hosts handles.hosts (start.fits.part isPart)⟩
  | leaving _ isPart =>
      cases isPlace
      exact ⟨isPart.mem, standsIn_exit (start.fits.part isPart)⟩
  | final finals =>
      cases isPlace
      obtain ⟨isFinal, settles, -, runs⟩ := finals
      obtain ⟨drops, -, part⟩ := start.fits.final _ isFinal
      exact ⟨mem_extents_of_final isFinal, standsIn_of_hosts (final_hosts isFinal runs) part⟩
  | ending finals =>
      cases isPlace
      obtain ⟨isFinal, -⟩ := finals
      obtain ⟨drops, -, part⟩ := start.fits.final _ isFinal
      exact ⟨mem_extents_of_final isFinal, standsIn_exit part⟩
  | returning | loaded | delivered => cases isPlace

/-- After the last part, control is in none of them. -/
theorem not_standsIn_executing (isExtent : extent ∈ start.layout.extents)
    (beyond : start.layout.stop ≤ frame.position) :
    ¬ start.StandsIn extent (start.executing frame store) := by
  rintro ⟨_, active, -, upTo⟩
  obtain rfl := active.unique executing_active
  have before := start.fits.ends extent isExtent
  omega

theorem Stage.not_standsIn (stage : start.Stage begun none config)
    (isExtent : extent ∈ start.layout.extents) : ¬ start.StandsIn extent config := by
  generalize isPlace : none = place at stage
  cases stage with
  | guarded | handler | leaving | final | ending => cases isPlace
  | returning => exact not_standsIn_executing isExtent (Nat.le_refl _)
  | loaded => exact not_standsIn_executing isExtent (Nat.le_succ _)
  | delivered =>
      rintro ⟨_, active, -⟩
      exact not_active_over active

/-- A block is active until it is over. -/
theorem Stage.active_or_over (stage : start.Stage begun place config) :
    (∃ frame, start.seat.Active config frame) ∨ ∃ result frame store,
      start.Delivers begun result frame store ∧ config = start.delivering result store := by
  cases place with
  | some extent =>
      obtain ⟨-, frame, active, -⟩ := stage.standsIn
      exact .inl ⟨frame, active⟩
  | none =>
      cases stage with
      | returning | loaded => exact .inl ⟨_, executing_active⟩
      | delivered delivers => exact .inr ⟨_, _, _, delivers, rfl⟩

/-- As long as a block is active, it has the arguments that it began with. -/
theorem Stage.args (stage : start.Stage begun place config)
    (active : start.seat.Active config frame) : frame.args = start.frame.args := by
  have ofHosts : ∀ {extent : Extent},
      start.seat.Hosts start.layout.least start.frame extent config →
        frame.args = start.frame.args := by
    intro extent hosts
    obtain ⟨_, also, alike, -⟩ := hosts.active
    rw [active.unique also]
    exact alike.args
  cases stage with
  | guarded guards => exact ofHosts guards.hosts
  | handler handles => exact ofHosts handles.hosts
  | leaving settles =>
      obtain rfl := active.unique executing_active
      exact settles.runs.1.args
  | final finals =>
      obtain ⟨isFinal, settles, -, runs⟩ := finals
      obtain ⟨_, also, alike, -⟩ := (final_hosts isFinal runs).active
      rw [active.unique also]
      exact alike.args.trans settles.runs.1.args
  | ending finals =>
      obtain rfl := active.unique executing_active
      obtain ⟨-, -, -, -, same, -⟩ := finals.runs
      exact same
  | returning delivers =>
      obtain rfl := active.unique executing_active
      exact delivers.holds.2.1
  | loaded delivers =>
      obtain rfl := active.unique executing_active
      exact delivers.holds.2.1
  | delivered => exact (not_active_over active).elim

/-! ## Runs -/

theorem Settles.begun_eq (settles : start.Settles begun result frame store) :
    ∃ caught : Option Extent, begun = start.layout.guarded :: caught.toList := by
  cases settles with
  | body | uncaught => exact ⟨none, rfl⟩
  | handler | raised => exact ⟨some _, rfl⟩

/-- Once a block is over, its body has begun once, then at most one handler, and then the final part
once, if there is one. -/
theorem Delivers.begun_eq (delivers : start.Delivers begun result frame store) :
    ∃ caught : Option Extent,
      begun = start.layout.guarded :: caught.toList ++ start.layout.final.toList := by
  cases delivers with
  | direct noFinal settles =>
      obtain ⟨caught, rfl⟩ := settles.begun_eq
      exact ⟨caught, by rw [noFinal, Option.toList_none, List.append_nil]⟩
  | ended finals | replaced finals =>
      obtain ⟨isFinal, settles, -⟩ := finals
      obtain ⟨caught, rfl⟩ := settles.begun_eq
      exact ⟨caught, by rw [isFinal, Option.toList_some]⟩

/-- Wherever a run of a block has got to, its stage is decided by the parts that have begun. -/
theorem stage_of_evaluates (run : start.Evaluates begun config) :
    ∃ place, start.Stage begun place config := by
  have leads : ∀ {begun place} {config next : Config}, start.Stage begun place config →
      (∃ frame, start.seat.Active config frame) →
      Machine.step image start.limit config = .running next → ∃ extended target,
        Extent.Moves begun place extended target ∧ start.Stage extended target next := by
    rintro begun place config next stage ⟨frame, active⟩ isNext
    rcases stage.leads with leads | ⟨result, _, store, -, rfl⟩
    · rcases leads with ⟨other, extended, target, isOther, moves, stage⟩ | ⟨error, last, isLast⟩
      · cases isNext.symm.trans isOther
        exact ⟨extended, target, moves, stage⟩
      · cases isNext.symm.trans isLast
    · exact (not_active_over active).elim
  induction run with
  | begins => exact ⟨_, .guarded .refl⟩
  | @starts begun config next extent run active isNext isExtent outside inside ih =>
      obtain ⟨place, stage⟩ := ih
      obtain ⟨extended, target, moves, later⟩ := leads stage active isNext
      cases target with
      | none => exact (later.not_standsIn isExtent inside).elim
      | some part =>
          obtain ⟨isPart, standsIn⟩ := later.standsIn
          obtain rfl := standsIn.unique inside isPart isExtent
          cases moves with
          | stays => exact (outside stage.standsIn.2).elim
          | starts => exact ⟨_, later⟩
  | @goesOn begun config next run active isNext stays ih =>
      obtain ⟨place, stage⟩ := ih
      obtain ⟨extended, target, moves, later⟩ := leads stage active isNext
      cases moves with
      | stays => exact ⟨_, later⟩
      | leaves => exact ⟨_, later⟩
      | @starts part next isLater =>
          obtain ⟨isNew, inside⟩ := later.standsIn
          obtain ⟨isOld, standsIn⟩ := stage.standsIn
          obtain rfl := standsIn.unique (stays _ isNew inside) isOld isNew
          obtain ⟨frame, -, from', upTo⟩ := inside
          omega

/-- A run is that of a block until the block is over. -/
theorem evaluates_of_reaches (reaches : Machine.Reaches image start.limit start.config config) :
    (∃ begun, start.Evaluates begun config) ∨ start.Passed config := by
  induction reaches with
  | refl => exact .inl ⟨_, .begins⟩
  | @tail config next _ isNext ih =>
      rcases ih with ⟨begun, run⟩ | ⟨begun, result, frame, store, delivers, run, later⟩
      · obtain ⟨place, stage⟩ := stage_of_evaluates run
        rcases stage.active_or_over with active | ⟨result, frame, store, delivers, rfl⟩
        · by_cases stays : ∀ extent ∈ start.layout.extents,
              start.StandsIn extent next → start.StandsIn extent config
          · exact .inl ⟨begun, .goesOn run active isNext stays⟩
          · push Not at stays
            obtain ⟨extent, isExtent, inside, outside⟩ := stays
            exact .inl ⟨_, .starts run active isNext isExtent outside inside⟩
        · exact .inr ⟨begun, result, frame, store, delivers, run, .single isNext⟩
      · exact .inr ⟨begun, result, frame, store, delivers, run, later.tail isNext⟩

/-- A run does not end before the block is over, unless it fails. -/
theorem passed_of_ends {outcome : Outcome}
    (ends : Machine.Ends image start.limit start.config outcome store)
    (noError : ∀ error, outcome ≠ .error error) :
    ∃ last, start.Passed last ∧ Machine.step image start.limit last = .finished outcome store := by
  obtain ⟨last, reaches, isLast⟩ := ends
  refine ⟨last, ?_, isLast⟩
  rcases evaluates_of_reaches reaches with ⟨begun, run⟩ | passed
  · obtain ⟨place, stage⟩ := stage_of_evaluates run
    rcases stage.leads with leads | ⟨result, frame, later, delivers, rfl⟩
    · rcases leads with ⟨next, -, -, isNext, -⟩ | ⟨error, other, isError⟩
      · cases isLast.symm.trans isNext
      · cases isLast.symm.trans isError
        exact (noError error rfl).elim
    · exact ⟨begun, result, frame, later, delivers, run, .refl⟩
  · exact passed

end TryStart

end ClassForge
