import ClassForge.Diagnostic
import Mathlib.Data.List.Forall2

/-!
# Outcomes of computations that may fail

When a computation made of parts succeeds, and what holds of an outcome that is
either a result or one of some faults.
-/

namespace ClassForge

/-! ## Success -/

/-- A computation that may fail succeeds when its parts do, one after the
other. -/
theorem bind_eq_ok {ε α β : Type} {first : Except ε α} {next : α → Except ε β}
    {result : β} :
    (first >>= next) = .ok result ↔
      ∃ value, first = .ok value ∧ next value = .ok result := by
  cases first with
  | error failure => simp [bind, Except.bind]
  | ok value => simp [bind, Except.bind]

/-- It fails when one of them does. -/
theorem bind_eq_error {ε α β : Type} {first : Except ε α} {next : α → Except ε β}
    {fault : ε} :
    (first >>= next) = .error fault ↔
      first = .error fault ∨ ∃ value, first = .ok value ∧ next value = .error fault := by
  cases first with
  | error failure => simp [bind, Except.bind]
  | ok value => simp [bind, Except.bind]

theorem pure_eq_ok {ε α : Type} {value result : α} :
    (pure value : Except ε α) = .ok result ↔ value = result := by
  simp [pure, Except.pure]

theorem throw_ne_ok {ε α : Type} {failure : ε} {result : α} :
    (throw failure : Except ε α) = .ok result ↔ False := by
  simp [throw, throwThe, MonadExceptOf.throw]

theorem exists_ok_of_isOk {ε α : Type} {outcome : Except ε α} (succeeds : outcome.isOk = true) :
    ∃ result, outcome = .ok result := by
  cases outcome with
  | error failure => cases succeeds
  | ok result => exact ⟨result, rfl⟩

/-- A result with a property is there. -/
theorem exists_ok_of_any {ε α : Type} {outcome : Except ε α} {test : α → Bool}
    (holds : outcome.toOption.any test = true) : ∃ value, outcome = .ok value ∧ test value = true := by
  cases outcome with
  | error => cases holds
  | ok value => exact ⟨value, rfl, holds⟩

/-- An empty list of parts gives an empty list of results. -/
theorem ok_nil_iff {ε α β : Type} {relation : α → β → Prop} {results : List β} :
    (.ok [] : Except ε (List β)) = .ok results ↔
      List.Forall₂ relation [] results := by
  rw [List.forall₂_nil_left_iff, Except.ok.injEq, eq_comm]

/-- A list of results has one for each member. -/
theorem mapM_eq_ok {ε α β : Type} {action : α → Except ε β} {items : List α}
    {results : List β} :
    items.mapM action = .ok results ↔
      List.Forall₂ (fun item result => action item = .ok result) items results := by
  induction items generalizing results with
  | nil => exact ok_nil_iff
  | cons item items ih =>
      simp only [List.mapM_cons, bind_eq_ok, pure_eq_ok, ih,
        List.forall₂_cons_left_iff]
      grind

/-- Something optional gives a result just when it is there. -/
theorem optionMapM_eq_ok {ε α β : Type} {action : α → Except ε β} {item : Option α}
    {result : Option β}
    (done : item.mapM action = .ok result) :
    Option.Rel (fun item result => action item = .ok result) item result := by
  cases item with
  | none =>
      cases done
      exact .none
  | some value =>
      have mapped : some <$> action value = .ok result := done
      cases found : action value with
      | error failure =>
          rw [found] at mapped
          cases mapped
      | ok value =>
          rw [found] at mapped
          cases mapped
          exact .some found

/-- Checks of all members of a list succeed when each of them does. -/
theorem forM_eq_ok {ε α : Type} {items : List α} {check : α → Except ε Unit} :
    items.forM check = .ok () ↔ ∀ item ∈ items, check item = .ok () := by
  induction items with
  | nil => exact iff_of_true rfl (by simp)
  | cons item items ih =>
      have step : (item :: items).forM check = (check item >>= fun _ => items.forM check) := rfl
      rw [step, bind_eq_ok, List.forall_mem_cons, ← ih]
      constructor
      · rintro ⟨⟨⟩, first, rest⟩
        exact ⟨first, rest⟩
      · rintro ⟨first, rest⟩
        exact ⟨(), first, rest⟩

/-- Checks of all members of a list fail as one of them does. -/
theorem exists_of_forM_eq_error {ε α : Type} {items : List α} {check : α → Except ε Unit}
    {fault : ε} (failed : items.forM check = .error fault) :
    ∃ item ∈ items, check item = .error fault := by
  induction items with
  | nil => cases failed
  | cons item items ih =>
      rcases bind_eq_error.mp failed with first | ⟨⟨⟩, -, rest⟩
      · exact ⟨item, List.mem_cons_self, first⟩
      · obtain ⟨later, member, found⟩ := ih rest
        exact ⟨later, List.mem_cons_of_mem _ member, found⟩

/-- A list of results fails as one of them does. -/
theorem exists_of_mapM_eq_error {ε α β : Type} {items : List α} {action : α → Except ε β}
    {fault : ε} (failed : items.mapM action = .error fault) :
    ∃ item ∈ items, action item = .error fault := by
  induction items with
  | nil => cases failed
  | cons item items ih =>
      rw [List.mapM_cons] at failed
      rcases bind_eq_error.mp failed with first | ⟨_, -, failed⟩
      · exact ⟨item, List.mem_cons_self, first⟩
      rcases bind_eq_error.mp failed with rest | ⟨_, -, ⟨⟩⟩
      obtain ⟨later, member, found⟩ := ih rest
      exact ⟨later, List.mem_cons_of_mem _ member, found⟩

/-! ## Lists without repetition -/

/-- Nothing stands twice in a list whose repetitions are left out. -/
theorem nodup_eraseDups {α : Type} [BEq α] [LawfulBEq α] (items : List α) :
    items.eraseDups.Nodup := by
  match items with
  | [] => exact List.nodup_nil
  | item :: items =>
      rw [List.eraseDups_cons, List.nodup_cons]
      refine ⟨fun again => ?_, nodup_eraseDups _⟩
      have kept := (List.mem_filter.mp (List.mem_eraseDups.mp again)).2
      simp at kept
termination_by items.length
decreasing_by exact Nat.lt_succ_of_le (List.length_filter_le _ _)

/-! ## Results and permitted faults -/

section

variable {α β : Type} {permits : Diagnostic → Prop}

/-- A result meets a condition, or the fault is a permitted one. -/
def Yields (permits : Diagnostic → Prop) (result : Except Diagnostic α)
    (post : α → Prop) : Prop :=
  match result with
  | .ok value => post value
  | .error diagnostic => permits diagnostic

namespace Yields

theorem imp {result : Except Diagnostic α} {post weaker : α → Prop}
    (yields : Yields permits result post)
    (implies : ∀ value, post value → weaker value) :
    Yields permits result weaker := by
  cases result with
  | ok value => exact implies value yields
  | error diagnostic => exact yields

theorem bind {first : Except Diagnostic α} {next : α → Except Diagnostic β} {middle : α → Prop}
    {post : β → Prop} (yields : Yields permits first middle)
    (continues : ∀ value, middle value → Yields permits (next value) post) :
    Yields permits (first >>= next) post := by
  cases first with
  | ok value => exact continues value yields
  | error diagnostic => exact yields

/-- What is known of a good result can be added. -/
theorem and_ok {result : Except Diagnostic α} {post other : α → Prop}
    (yields : Yields permits result post)
    (shape : ∀ value, result = .ok value → other value) :
    Yields permits result other := by
  cases result with
  | ok value => exact shape value rfl
  | error diagnostic => exact yields

/-- More faults can be permitted. -/
theorem permit {result : Except Diagnostic α} {post : α → Prop} {more : Diagnostic → Prop}
    (yields : Yields permits result post)
    (implies : ∀ diagnostic, permits diagnostic → more diagnostic) :
    Yields more result post := by
  cases result with
  | ok value => exact yields
  | error diagnostic => exact implies diagnostic yields

end Yields

end

end ClassForge
