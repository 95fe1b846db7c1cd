import ClassForge.Proofs.Machine.EntryCalls
import Mathlib.Logic.Relation

/-!
# Levels that wait

What runs on top of waiting levels does not look at them.  A run therefore goes the same way with
and without levels below it, until it has a value or an exception for them; an error leaves their
frames as well.  Only the room for further levels may be less, so the run may be cut off.
-/

namespace ClassForge

namespace Machine

/-- Where two transitions lead, of which the second has more levels below it and less room. -/
inductive Lifts (limit : Nat) (below : List Level) (spare : Nat) : Progress → Progress → Prop where
  | running (focus : Focus) (levels : List Level) (room : Nat) (store : Store) :
      Lifts limit below spare (.running ⟨focus, levels, room + spare, store⟩)
        (.running ⟨focus, levels ++ below, room, store⟩)
  | failed (error : RunError) (store : Store) :
      Lifts limit below spare (.finished (.error error) store)
        (.finished (.error error) ((Level.frames below).foldl Store.releasePins store))
  | cutOff (alone : Progress) (store : Store) :
      Lifts limit below spare alone (.finished (.error (.stackOverflow limit)) store)

section Transitions

variable {image : Image} {limit spare room : Nat} {below levels : List Level} {store : Store}

theorem lifts_fail (error : RunError) (frames : List Frame) :
    Lifts limit below spare (fail error frames store)
      (fail error (frames ++ Level.frames below) store) := by
  unfold fail
  rw [List.foldl_append]
  exact .failed error _

theorem frames_append (levels below : List Level) :
    (levels ++ below).filterMap Level.frame? =
      levels.filterMap Level.frame? ++ Level.frames below :=
  List.filterMap_append

theorem lifts_enter (request : Request) :
    Lifts limit below spare (enter limit request levels (room + spare) store)
      (enter limit request (levels ++ below) room store) := by
  cases room with
  | zero => exact .cutOff _ _
  | succ room =>
      rw [Nat.add_right_comm]
      exact .running (.begin request) levels room store

theorem lifts_handle (frame : Frame) (isCtor : Bool) (exception : Value)
    (position firstRegion : Nat) :
    Lifts limit below spare
      (handle image frame isCtor exception position firstRegion levels (room + spare) store)
      (handle image frame isCtor exception position firstRegion (levels ++ below) room store) := by
  unfold handle
  split
  · exact .running _ levels room _
  · exact .running _ levels room _
  · exact .running _ levels room _
  · rw [frames_append, ← List.cons_append]
    exact lifts_fail _ _

theorem lifts_follow (frame : Frame) (isCtor : Bool) (flow : Flow) :
    Lifts limit below spare
      (follow image limit frame isCtor flow levels (room + spare) store)
      (follow image limit frame isCtor flow (levels ++ below) room store) := by
  cases flow with
  | next => exact .running _ levels room store
  | ret value => exact .running _ levels room _
  | tailCall call =>
      unfold follow
      dsimp only
      split
      · rw [← List.cons_append]
        exact lifts_enter _
      · exact .running _ levels room _
  | enter request onReturn =>
      unfold follow
      dsimp only
      rw [← List.cons_append]
      exact lifts_enter request
  | resume exception position nextRegion => exact lifts_handle frame isCtor exception _ _

/-- Nothing is left to do but to hand over a value or an exception. -/
def IsOver (focus : Focus) (levels : List Level) : Prop :=
  levels = [] ∧ ∃ value, focus = .deliver value ∨ focus = .raise value

/-- A transition does not look at the levels below. -/
theorem lifts_step {focus : Focus} (goesOn : ¬ IsOver focus levels) :
    Lifts limit below spare (step image limit ⟨focus, levels, room + spare, store⟩)
      (step image limit ⟨focus, levels ++ below, room, store⟩) := by
  cases focus with
  | execute frame isCtor =>
      unfold step
      dsimp only
      split
      · rw [frames_append, ← List.cons_append]
        exact lifts_fail _ _
      · split
        · exact lifts_follow _ isCtor _
        · exact lifts_handle _ isCtor _ _ _
        · rw [frames_append, ← List.cons_append]
          exact lifts_fail _ _
  | begin request =>
      unfold step
      dsimp only
      split
      · exact .running _ levels room _
      · exact .running _ levels room _
      · rw [frames_append]
        exact lifts_fail _ _
  | deliver value =>
      cases levels with
      | nil => exact (goesOn ⟨rfl, value, .inl rfl⟩).elim
      | cons level levels =>
          unfold step
          simp only [List.cons_append]
          cases level with
          | passing =>
              rw [Nat.add_right_comm]
              exact .running _ levels (room + 1) store
          | caller frame isCtor onReturn =>
              rw [Nat.add_right_comm]
              exact .running _ levels (room + 1) store
  | raise exception =>
      cases levels with
      | nil => exact (goesOn ⟨rfl, exception, .inr rfl⟩).elim
      | cons level levels =>
          unfold step
          simp only [List.cons_append]
          cases level with
          | passing =>
              rw [Nat.add_right_comm]
              exact .running _ levels (room + 1) store
          | caller frame isCtor onReturn =>
              rw [Nat.add_right_comm]
              exact lifts_handle frame isCtor exception _ _

end Transitions

/-! ## Runs -/

/-- A configuration goes on to another one. -/
def Reaches (image : Image) (limit : Nat) : Config → Config → Prop :=
  Relation.ReflTransGen fun config next => step image limit config = .running next

/-- A run ends in some way. -/
def Ends (image : Image) (limit : Nat) (config : Config) (outcome : Outcome) (store : Store) : Prop :=
  ∃ last, Reaches image limit config last ∧ step image limit last = .finished outcome store

/-- What the levels below get of a run: a value, an exception, or an error that ends them, too. -/
def Hands (image : Image) (limit : Nat) (config : Config) (below : List Level) (room : Nat) :
    Outcome → Store → Prop
  | .value value, store => Reaches image limit config ⟨.deliver value, below, room, store⟩
  | .exception exception, store => Reaches image limit config ⟨.raise exception, below, room, store⟩
  | .error error, store =>
      Ends image limit config (.error error) ((Level.frames below).foldl Store.releasePins store)

/-- A run is cut off when there is no room for another level. -/
def CutOff (image : Image) (limit : Nat) (config : Config) : Prop :=
  ∃ store, Ends image limit config (.error (.stackOverflow limit)) store

/-- A run on top of levels that wait ends as a call from outside does that gets an answer and
leaves a store, unless it is cut off. -/
def EndsAs (image : Image) (limit : Nat) (config : Config) (waiting : List Level)
    (answer : Except RunError Value) (last : Store) : Prop :=
  (∃ outcome, answer = Outcome.answer image last outcome ∧
      Hands image limit config waiting (limit - (waiting.length + 1)) outcome last) ∨
    CutOff image limit config

section Runs

variable {image : Image} {limit spare : Nat} {config next : Config} {below : List Level}
variable {outcome : Outcome} {last : Store}
variable {waiting : List Level} {answer : Except RunError Value}

section

variable (isNext : step image limit config = .running next)
include isNext

theorem Ends.head (ends : Ends image limit next outcome last) :
    Ends image limit config outcome last := by
  obtain ⟨final, reaches, isFinal⟩ := ends
  exact ⟨final, .head isNext reaches, isFinal⟩

theorem Hands.head {room : Nat} (hands : Hands image limit next below room outcome last) :
    Hands image limit config below room outcome last := by
  cases outcome with
  | value value => exact .head isNext hands
  | exception exception => exact .head isNext hands
  | error error => exact Ends.head isNext hands

theorem CutOff.head (cut : CutOff image limit next) : CutOff image limit config :=
  cut.imp fun _ ends => ends.head isNext

theorem EndsAs.head (ends : EndsAs image limit next waiting answer last) :
    EndsAs image limit config waiting answer last :=
  ends.imp (fun ⟨outcome, isAnswer, hands⟩ => ⟨outcome, isAnswer, hands.head isNext⟩)
    (.head isNext)

end

/-- A run goes the same way on top of other levels, unless it is cut off. -/
theorem run_hands {fuel room : Nat} {focus : Focus} {levels : List Level} {store : Store}
    (ran : run image limit fuel ⟨focus, levels, room + spare, store⟩ = some (outcome, last)) :
    Hands image limit ⟨focus, levels ++ below, room, store⟩ below (levels.length + room) outcome last ∨
      CutOff image limit ⟨focus, levels ++ below, room, store⟩ := by
  induction fuel generalizing focus levels room store with
  | zero => cases ran
  | succ fuel ih =>
      rw [run] at ran
      by_cases isOver : IsOver focus levels
      · obtain ⟨rfl, value, rfl | rfl⟩ := isOver
        · cases ran
          rw [List.length_nil, Nat.zero_add]
          exact .inl .refl
        · cases ran
          rw [List.length_nil, Nat.zero_add]
          exact .inl .refl
      · have lifts : Lifts limit below spare _ _ :=
          @lifts_step image limit spare room below levels store focus isOver
        have accounts := @step_accounts image limit ⟨focus, levels ++ below, room, store⟩
        generalize isAbove : step image limit ⟨focus, levels ++ below, room, store⟩ = above
          at lifts accounts
        generalize step image limit ⟨focus, levels, room + spare, store⟩ = alone at lifts ran
        cases lifts with
        | running nextFocus nextLevels nextRoom nextStore =>
            have sameTotal : nextLevels.length + nextRoom = levels.length + room := by
              simp only [Accounts, Config.depth, List.length_append] at accounts
              omega
            refine (ih ran).imp (fun hands => ?_) (.head isAbove)
            rw [sameTotal] at hands
            exact hands.head isAbove
        | failed error store =>
            cases ran
            exact .inl ⟨_, .refl, isAbove⟩
        | cutOff alone store => exact .inr ⟨store, _, .refl, isAbove⟩

/-- What is carried out from outside goes the same way on top of levels that leave room for it. -/
theorem perform_endsAs {machine later : Machine} {fuel room : Nat} {request : Request}
    {store : Store} (isTotal : waiting.length + 1 + room = machine.maxDepth)
    (performed : machine.perform fuel request store = some (answer, later)) :
    EndsAs machine.image machine.maxDepth ⟨.begin request, waiting, room, store⟩ waiting answer
      later.store := by
  obtain ⟨⟨outcome, last⟩, ended, same⟩ := Option.map_eq_some_iff.mp performed
  cases same
  have isLimit : machine.maxDepth = room + waiting.length + 1 := by omega
  have opens : enter machine.maxDepth request [] machine.maxDepth store =
      .running ⟨.begin request, [], room + waiting.length, store⟩ := by
    generalize machine.maxDepth = limit at isLimit
    subst isLimit
    rfl
  rw [opens] at ended
  refine (@run_hands _ _ _ waiting _ _ _ _ _ _ _ ended).imp_left fun hands => ⟨outcome, rfl, ?_⟩
  rw [show machine.maxDepth - (waiting.length + 1) = room by omega]
  rwa [List.length_nil, Nat.zero_add] at hands

end Runs

end Machine

end ClassForge
