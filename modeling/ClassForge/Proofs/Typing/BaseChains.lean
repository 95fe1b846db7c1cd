import ClassForge.Proofs.Typing.Ancestors

/-!
# Base chains

The checker follows the bases of a type until there is none or one comes up again.  The chain is
never longer than there are types that can be bases, so the bound on its steps is never what ends
it, even where bases go round in a circle.  The chain is closed under bases, and with the
interfaces above it under all direct supertypes.
-/

namespace ClassForge

open Relation

namespace TypeContext

variable {context : TypeContext} {type lower upper last : SourceTy}
variable {among chain types : List SourceTy} {steps : Nat}
variable {base : SourceTy}

/-! ## Climbing -/

/-- What is known before each step along a chain: its types are different and among some types, and
the base of each is in the chain, except perhaps that of the last one. -/
structure Climbing (context : TypeContext) (among chain : List SourceTy) (last : SourceTy) :
    Prop where
  distinct : chain.Nodup
  within : chain ⊆ among
  isLast : last ∈ chain
  pending : ∀ lower ∈ chain, ∀ base, context.base? lower = some base → base ∈ chain ∨ lower = last

theorem climb_of_none (none : context.base? last = none) :
    context.climb steps chain last = chain := by
  cases steps with
  | zero => rfl
  | succ steps => rw [climb, none]

theorem climb_of_mem (isBase : context.base? last = some base) (again : base ∈ chain) :
    context.climb steps chain last = chain := by
  cases steps with
  | zero => rfl
  | succ steps =>
      rw [climb, isBase]
      exact if_pos (List.contains_iff_mem.mpr again)

theorem climb_of_notMem (isBase : context.base? last = some base) (isNew : base ∉ chain) :
    context.climb (steps + 1) chain last = context.climb steps (chain ++ [base]) base := by
  rw [climb, isBase]
  exact if_neg fun again => isNew (List.contains_iff_mem.mp again)

theorem Climbing.next (climbing : context.Climbing among chain last)
    (parents : context.parents ⊆ among) (isBase : context.base? last = some base)
    (isNew : base ∉ chain) : context.Climbing among (chain ++ [base]) base := by
  refine ⟨?_, ?_, List.mem_append_right _ List.mem_cons_self, fun lower member above isAbove => ?_⟩
  · exact List.nodup_append'.mpr ⟨climbing.distinct, List.nodup_singleton _,
      List.disjoint_singleton.mpr isNew⟩
  · intro type member
    rcases List.mem_append.mp member with old | isLast
    · exact climbing.within old
    · rw [List.mem_singleton.mp isLast]
      exact parents (base?_mem_parents isBase)
  · rcases List.mem_append.mp member with old | isLast
    · rcases climbing.pending lower old above isAbove with known | rfl
      · exact .inl (List.mem_append_left _ known)
      · cases isBase.symm.trans isAbove
        exact .inl (List.mem_append_right _ List.mem_cons_self)
    · exact .inr (List.mem_singleton.mp isLast)

/-- When all types are in the chain, so is the base of the last one. -/
theorem Climbing.full (climbing : context.Climbing among chain last)
    (parents : context.parents ⊆ among) (enough : among.length ≤ chain.length)
    (isBase : context.base? last = some base) : base ∈ chain := by
  have all := (climbing.distinct.subperm climbing.within).perm_of_length_le enough
  exact all.mem_iff.mpr (parents (base?_mem_parents isBase))

/-- What holds of a chain at the end of a climb with enough steps: it holds where there is no way up
and is passed on by each step. -/
theorem Climbing.ends (climbing : context.Climbing among chain last)
    (parents : context.parents ⊆ among) (enough : among.length ≤ chain.length + steps) :
    ∃ top, context.Climbing among (context.climb steps chain last) top ∧
      (∀ base, context.base? top = some base → base ∈ context.climb steps chain last) ∧
      chain <+: context.climb steps chain last ∧
      ∀ more, steps ≤ more → context.climb more chain last = context.climb steps chain last := by
  induction steps generalizing chain last with
  | zero =>
      have full : ∀ base, context.base? last = some base → base ∈ chain := fun _ =>
        climbing.full parents enough
      refine ⟨last, climbing, full, List.prefix_rfl, fun more _ => ?_⟩
      cases isBase : context.base? last with
      | none => exact climb_of_none isBase
      | some base => exact climb_of_mem isBase (full base isBase)
  | succ steps ih =>
      cases isBase : context.base? last with
      | none =>
          rw [climb_of_none isBase]
          refine ⟨last, climbing, fun base also => ?_, List.prefix_rfl, fun more _ =>
            climb_of_none isBase⟩
          cases isBase.symm.trans also
      | some base =>
          by_cases again : base ∈ chain
          · rw [climb_of_mem isBase again]
            refine ⟨last, climbing, fun other also => ?_, List.prefix_rfl,
              fun more _ => climb_of_mem isBase again⟩
            cases isBase.symm.trans also
            exact again
          · rw [climb_of_notMem isBase again]
            have enough : among.length ≤ (chain ++ [base]).length + steps := by
              rw [List.length_append, List.length_singleton]
              omega
            obtain ⟨top, atTop, isTop, starts, same⟩ :=
              ih (climbing.next parents isBase again) enough
            refine ⟨top, atTop, isTop, (List.prefix_append _ _).trans starts, fun more isMore => ?_⟩
            obtain ⟨more, rfl⟩ := Nat.exists_eq_succ_of_ne_zero (Nat.ne_zero_of_lt isMore)
            rw [climb_of_notMem isBase again]
            exact same more (Nat.le_of_succ_le_succ isMore)

/-! ## The chain of a type -/

theorem climbing_start : context.Climbing (type :: context.parents) [type] type :=
  ⟨List.nodup_singleton _, by simp, List.mem_cons_self, fun lower member _ _ =>
    .inr (List.mem_singleton.mp member)⟩

theorem baseChain_ends :
    ∃ top, context.Climbing (type :: context.parents) (context.baseChain type) top ∧
      (∀ base, context.base? top = some base → base ∈ context.baseChain type) ∧
      [type] <+: context.baseChain type ∧
      ∀ more, context.parents.length ≤ more →
        context.climb more [type] type = context.baseChain type :=
  climbing_start.ends (List.subset_cons_self _ _) (by simp [Nat.add_comm])

/-- The base of a type on the chain is on the chain. -/
theorem baseChain_closed (member : lower ∈ context.baseChain type)
    (isBase : context.base? lower = some base) : base ∈ context.baseChain type := by
  obtain ⟨top, climbing, isTop, -⟩ := @baseChain_ends context type
  rcases climbing.pending lower member base isBase with known | rfl
  · exact known
  · exact isTop base isBase

theorem mem_baseChain_self : type ∈ context.baseChain type := by
  obtain ⟨-, -, -, starts, -⟩ := @baseChain_ends context type
  exact starts.subset List.mem_cons_self

/-- The chain of a type on a chain is a part of that chain. -/
theorem baseChain_subset (member : lower ∈ context.baseChain type) :
    context.baseChain lower ⊆ context.baseChain type :=
  baseChain_all_bases (fun _ isMember _ isBase => baseChain_closed isMember isBase) member

/-! ## The types above a chain -/

theorem spread_starts {seen frontier : List SourceTy} :
    seen <+: context.spread steps seen frontier := by
  induction steps generalizing seen frontier with
  | zero => exact List.prefix_rfl
  | succ steps ih =>
      by_cases saturated : context.fresh seen frontier = []
      · exact (spread_of_fresh_eq_nil saturated).symm ▸ List.prefix_rfl
      · rw [spread_of_fresh_ne_nil saturated]
        exact (List.prefix_append _ _).trans ih

theorem searching_baseChain :
    context.Searching (context.baseChain type) (type :: context.parents) (context.baseChain type)
      (context.baseChain type) := by
  obtain ⟨top, climbing, -⟩ := @baseChain_ends context type
  exact ⟨climbing.distinct, climbing.within, fun lower known _ _ => .inr (known.elim id id)⟩

theorem withAncestors_closed (member : lower ∈ context.withAncestors (context.baseChain type))
    (below : context.Below lower upper) :
    upper ∈ context.withAncestors (context.baseChain type) := by
  refine searching_baseChain.spread_closed (List.subset_cons_self _ _) ?_ (.inr member) below
  have := List.length_pos_of_mem (@mem_baseChain_self context type)
  rw [List.length_cons]
  omega

end TypeContext

end ClassForge
