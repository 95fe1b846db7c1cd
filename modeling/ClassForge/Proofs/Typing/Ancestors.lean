import ClassForge.Proofs.Typing.MemberSearch
import Mathlib.Data.List.Nodup
import Mathlib.Data.List.Perm.Subperm
import Mathlib.Logic.Relation

/-!
# The search for ancestors

The checker looks for the types above a type level by level and stops after as many levels as
there can be parents.  Every level but the last finds a new parent, so the search never ends
early: what it finds is all that is reached by going up one or more times.
-/

namespace ClassForge

open Relation

theorem Ty.isVoid_iff {type : SourceTy} : type.isVoid = true ↔ type = .void := by
  unfold Ty.isVoid
  split
  · exact iff_of_true rfl rfl
  · next isOther => exact iff_of_false Bool.false_ne_true isOther

theorem Ty.isObject_iff {type : SourceTy} : type.isObject = true ↔ type = .object := by
  unfold Ty.isObject
  split
  · exact iff_of_true rfl rfl
  · next isOther => exact iff_of_false Bool.false_ne_true isOther

namespace TypeContext

variable {context : TypeContext} {lower upper : SourceTy}

/-- A type is declared directly below another one. -/
def Below (context : TypeContext) (lower upper : SourceTy) : Prop :=
  upper ∈ context.supertypes lower

/-- What is above a type is found among the parents. -/
theorem Below.mem_parents (below : context.Below lower upper) : upper ∈ context.parents := by
  have isObject : Ty.object ∈ context.parents := List.mem_cons_self
  have ofDeclared : ∀ {name decl}, context.symbols.type? name = some decl →
      upper ∈ decl.base.toList ++ decl.interfaces → upper ∈ context.parents := fun found listed =>
    List.mem_append_left _ (List.mem_cons_of_mem _ (List.mem_flatMap.mpr
      ⟨_, Symbols.mem_entries_of_type? found, listed⟩))
  cases above_of_mem_supertypes below with
  | @base _ decl found =>
      rcases decl.base_listed with same | listed
      · rw [same]
        exact isObject
      · exact ofDeclared found listed
  | interface found listed => exact ofDeclared found (List.mem_append_right _ listed)
  | array => exact isObject
  | platform above =>
      obtain rfl | ⟨entry, isEntry, builtin, isOrigin, rfl⟩ := Image.builtin_above above
      · exact isObject
      · refine List.mem_append_right _ (List.mem_filterMap.mpr
          ⟨entry, Array.mem_toList_iff.mpr isEntry, ?_⟩)
        rw [isOrigin]

/-- The base of a type is a parent. -/
theorem base?_mem_parents (isBase : context.base? lower = some upper) : upper ∈ context.parents :=
  Below.mem_parents (List.mem_append_left _ (Option.mem_toList.mpr isBase))

/-! ## Levels -/

/-- The types of a level that were not seen before. -/
def fresh (context : TypeContext) (seen frontier : List SourceTy) : List SourceTy :=
  ((frontier.flatMap context.supertypes).filter fun type => !seen.contains type).eraseDups

theorem mem_fresh {seen frontier : List SourceTy} :
    upper ∈ context.fresh seen frontier ↔
      (∃ lower ∈ frontier, context.Below lower upper) ∧ upper ∉ seen := by
  simp [fresh, Below]

/-- What is known before each level of a search: the types that were seen are different and among
some types, and whatever is above one of the starts or above one of them has been seen or is still
to come. -/
structure Searching (context : TypeContext) (starts among seen frontier : List SourceTy) :
    Prop where
  distinct : seen.Nodup
  within : seen ⊆ among
  pending : ∀ lower, lower ∈ starts ∨ lower ∈ seen → ∀ upper, context.Below lower upper →
    upper ∈ seen ∨ lower ∈ frontier

variable {starts among seen frontier : List SourceTy}

theorem Searching.next (searching : context.Searching starts among seen frontier)
    (parents : context.parents ⊆ among) :
    context.Searching starts among (seen ++ context.fresh seen frontier)
      (context.fresh seen frontier) := by
  have isNew : ∀ upper ∈ context.fresh seen frontier, upper ∉ seen :=
    fun upper isFresh => (mem_fresh.mp isFresh).2
  refine ⟨?_, ?_, ?_⟩
  · refine List.nodup_append'.mpr ⟨searching.distinct, nodup_eraseDups _, ?_⟩
    exact List.disjoint_left.mpr fun upper old isFresh => isNew upper isFresh old
  · intro upper member
    rcases List.mem_append.mp member with old | isFresh
    · exact searching.within old
    · obtain ⟨⟨lower, -, below⟩, -⟩ := mem_fresh.mp isFresh
      exact parents below.mem_parents
  · intro lower known upper below
    by_cases isFresh : lower ∈ context.fresh seen frontier
    · exact .inr isFresh
    · have known : lower ∈ starts ∨ lower ∈ seen := by
        refine known.imp_right fun member => ?_
        exact (List.mem_append.mp member).resolve_right isFresh
      refine .inl (List.mem_append.mpr ?_)
      rcases searching.pending lower known upper below with old | inFrontier
      · exact .inl old
      · by_cases old : upper ∈ seen
        · exact .inl old
        · exact .inr (mem_fresh.mpr ⟨⟨lower, inFrontier, below⟩, old⟩)

/-- When a level finds nothing new, all that is directly above what was seen has been seen. -/
theorem Searching.closed (searching : context.Searching starts among seen frontier)
    (saturated : context.fresh seen frontier = []) (known : lower ∈ starts ∨ lower ∈ seen)
    (below : context.Below lower upper) : upper ∈ seen := by
  rcases searching.pending lower known upper below with old | inFrontier
  · exact old
  · by_contra isNew
    have found := mem_fresh.mpr ⟨⟨lower, inFrontier, below⟩, isNew⟩
    rw [saturated] at found
    cases found

/-- A level that finds nothing new ends the search. -/
theorem spread_of_fresh_eq_nil {steps : Nat} (saturated : context.fresh seen frontier = []) :
    context.spread (steps + 1) seen frontier = seen := by
  unfold fresh at saturated
  simp only [spread, saturated]

/-- Otherwise it goes on from what the level found. -/
theorem spread_of_fresh_ne_nil {steps : Nat} (found : context.fresh seen frontier ≠ []) :
    context.spread (steps + 1) seen frontier =
      context.spread steps (seen ++ context.fresh seen frontier) (context.fresh seen frontier) := by
  obtain ⟨first, rest, isLevel⟩ := List.exists_cons_of_ne_nil found
  rw [isLevel]
  unfold fresh at isLevel
  simp only [spread, isLevel]

section Enough

variable {steps : Nat} (parents : context.parents ⊆ among)
include parents

/-- A search with enough steps finds all that is directly above what it finds. -/
theorem Searching.spread_closed (searching : context.Searching starts among seen frontier)
    (enough : among.length < seen.length + steps)
    (known : lower ∈ starts ∨ lower ∈ context.spread steps seen frontier)
    (below : context.Below lower upper) : upper ∈ context.spread steps seen frontier := by
  induction steps generalizing seen frontier with
  | zero =>
      have bounded := (searching.distinct.subperm searching.within).length_le
      omega
  | succ steps ih =>
      by_cases saturated : context.fresh seen frontier = []
      · rw [spread_of_fresh_eq_nil saturated] at known ⊢
        exact searching.closed saturated known below
      · rw [spread_of_fresh_ne_nil saturated] at known ⊢
        have isPositive := List.length_pos_iff.mpr saturated
        refine ih (searching.next parents) ?_ known
        rw [List.length_append]
        omega

/-- A search with enough steps ends by itself: it finds nothing more with more steps. -/
theorem Searching.spread_eq (searching : context.Searching starts among seen frontier)
    (enough : among.length < seen.length + steps) {more : Nat} (isMore : steps ≤ more) :
    context.spread more seen frontier = context.spread steps seen frontier := by
  induction steps generalizing more seen frontier with
  | zero =>
      have bounded := (searching.distinct.subperm searching.within).length_le
      omega
  | succ steps ih =>
      obtain ⟨more, rfl⟩ := Nat.exists_eq_succ_of_ne_zero (Nat.ne_zero_of_lt isMore)
      by_cases saturated : context.fresh seen frontier = []
      · rw [spread_of_fresh_eq_nil saturated, spread_of_fresh_eq_nil saturated]
      · rw [spread_of_fresh_ne_nil saturated, spread_of_fresh_ne_nil saturated]
        have isPositive := List.length_pos_iff.mpr saturated
        refine ih (searching.next parents) ?_ (Nat.le_of_succ_le_succ isMore)
        rw [List.length_append]
        omega

end Enough

/-- The search for ancestors starts with nothing seen. -/
theorem searching_ancestors : context.Searching [lower] context.parents [] [lower] := by
  refine ⟨List.nodup_nil, List.nil_subset _, ?_⟩
  rintro type (isStart | ⟨⟨⟩⟩) _ -
  exact .inr isStart

/-- The ancestors of a type are the types that are reached by going up one or more times. -/
theorem mem_ancestors_iff : upper ∈ context.ancestors lower ↔ TransGen context.Below lower upper := by
  constructor
  · suffices ∀ steps seen frontier,
        (∀ type ∈ seen, TransGen context.Below lower type) →
        (∀ type ∈ frontier, ReflTransGen context.Below lower type) →
        upper ∈ context.spread steps seen frontier → TransGen context.Below lower upper by
      refine this _ [] [lower] (by simp) (fun type member => ?_)
      rw [List.mem_singleton.mp member]
    intro steps
    induction steps with
    | zero => exact fun seen _ reached _ => reached upper
    | succ steps ih =>
        intro seen frontier reached reachable found
        have levelReached : ∀ type ∈ context.fresh seen frontier,
            TransGen context.Below lower type := by
          intro type isFresh
          obtain ⟨⟨middle, inFrontier, below⟩, -⟩ := mem_fresh.mp isFresh
          exact TransGen.tail' (reachable middle inFrontier) below
        by_cases saturated : context.fresh seen frontier = []
        · rw [spread_of_fresh_eq_nil saturated] at found
          exact reached upper found
        · rw [spread_of_fresh_ne_nil saturated] at found
          refine ih _ _ (fun type member => ?_) (fun type member => ?_) found
          · rcases List.mem_append.mp member with old | isFresh
            · exact reached type old
            · exact levelReached type isFresh
          · exact (levelReached type member).to_reflTransGen
  · intro reaches
    have above : ∀ {type}, type ∈ [lower] ∨ type ∈ context.ancestors lower → ∀ {next},
        context.Below type next → next ∈ context.ancestors lower := fun known _ below =>
      searching_ancestors.spread_closed (List.Subset.refl _) (by simp) known below
    induction reaches with
    | single below => exact above (.inl List.mem_cons_self) below
    | tail _ below ih => exact above (.inr ih) below

/-- What can be assigned where: equal types, references to `Object`, and references to what is
above them. -/
theorem isAssignable_iff {source goal : SourceTy} :
    context.isAssignable source goal = true ↔ source = goal ∨
      (context.isValue source = false ∧ source.isVoid = false ∧
        (goal = .object ∨ TransGen context.Below source goal)) := by
  rw [← mem_ancestors_iff, ← Ty.isObject_iff]
  simp [isAssignable, and_assoc]

end TypeContext

end ClassForge
