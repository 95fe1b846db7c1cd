import ClassForge.Expr.Usage

/-!
# The algebra of uses

The free names of a combination of uses, and the names that it marks as
captured, in terms of those of its parts.  Marks are merged correctly because
the entries are kept in ascending order, which every operation preserves.
-/

namespace ClassForge

/-- Looking a key up in a list of entries decides on the first entry. -/
theorem lookup_cons_ite {κ α : Type} [BEq κ] [LawfulBEq κ] [DecidableEq κ] (key first : κ)
    (value : α)
    (rest : List (κ × α)) :
    List.lookup key ((first, value) :: rest) =
      if key = first then some value else rest.lookup key := by
  rw [List.lookup_cons]
  by_cases same : key = first
  · simp [same]
  · rw [beq_false_of_ne same, if_neg same]

namespace Usage

variable {name : Name} {entries : List (Name × VarUse)} {left usage body right : Usage}
    {usages : List Usage}

/-- The entries are in strictly ascending order of names. -/
def Sorted (usage : Usage) : Prop :=
  usage.entries.Pairwise fun left right => left.1 < right.1

/-! ## Order of the entries -/

theorem sorted_empty : empty.Sorted :=
  List.Pairwise.nil

theorem sorted_read (name : Name) : (read name).Sorted :=
  List.pairwise_singleton _ _

theorem sorted_assigned (name : Name) : (assigned name).Sorted :=
  List.pairwise_singleton _ _

/-- Adding a use brings in no name but its own. -/
theorem mem_insertUse_name {use : VarUse} {entry : Name × VarUse}
    (member : entry ∈ insertUse name use entries) :
    entry.1 = name ∨ ∃ old ∈ entries, old.1 = entry.1 := by
  induction entries with
  | nil =>
      left
      simp only [insertUse, List.mem_singleton] at member
      rw [member]
  | cons head tail ih =>
      obtain ⟨other, otherUse⟩ := head
      simp only [insertUse] at member
      split at member
      · rcases List.mem_cons.mp member with rfl | old
        · exact Or.inl rfl
        · exact Or.inr ⟨entry, old, rfl⟩
      · split at member
        · rcases List.mem_cons.mp member with rfl | old
          · exact Or.inr ⟨_, List.mem_cons_self, rfl⟩
          · exact Or.inr ⟨entry, List.mem_cons_of_mem _ old, rfl⟩
        · rcases List.mem_cons.mp member with rfl | later
          · exact Or.inr ⟨_, List.mem_cons_self, rfl⟩
          · rcases ih later with same | ⟨old, present, same⟩
            · exact Or.inl same
            · exact Or.inr ⟨old, List.mem_cons_of_mem _ present, same⟩

theorem sorted_insertUse (name : Name) (use : VarUse)
    (sorted : entries.Pairwise fun left right => left.1 < right.1) :
    (insertUse name use entries).Pairwise fun left right => left.1 < right.1 := by
  induction entries with
  | nil => exact List.pairwise_singleton _ _
  | cons head tail ih =>
      obtain ⟨other, otherUse⟩ := head
      obtain ⟨below, rest⟩ := List.pairwise_cons.mp sorted
      simp only [insertUse]
      split
      next less =>
        refine List.pairwise_cons.mpr ⟨?_, sorted⟩
        intro entry member
        rcases List.mem_cons.mp member with rfl | later
        · exact less
        · exact String.lt_trans less (below entry later)
      next notLess =>
        split
        next same => exact List.pairwise_cons.mpr ⟨below, rest⟩
        next different =>
          refine List.pairwise_cons.mpr ⟨?_, ih rest⟩
          intro entry member
          rcases mem_insertUse_name member with same | ⟨old, present, same⟩
          · have above : other ≤ name := String.not_lt.mp notLess
            rw [same]
            refine Decidable.byContradiction fun notBelow => different ?_
            exact String.le_antisymm (String.not_lt.mp notBelow) above
          · rw [← same]
            exact below old present

theorem sorted_foldl_insertUse (added : List (Name × VarUse))
    (sorted : entries.Pairwise fun left right => left.1 < right.1) :
    (added.foldl (fun entries entry => insertUse entry.1 entry.2 entries)
      entries).Pairwise fun left right => left.1 < right.1 := by
  induction added generalizing entries with
  | nil => exact sorted
  | cons entry added ih => exact ih (sorted_insertUse _ _ sorted)

theorem Sorted.union (sorted : left.Sorted) (right : Usage) : (left.union right).Sorted :=
  sorted_foldl_insertUse right.entries sorted

theorem sorted_unionAll (usages : List Usage) : (unionAll usages).Sorted := by
  suffices ∀ start : Usage, start.Sorted → (usages.foldl union start).Sorted from
    this empty sorted_empty
  induction usages with
  | nil => exact fun start sorted => sorted
  | cons usage usages ih => exact fun start sorted => ih _ (sorted.union usage)

theorem Sorted.without (sorted : usage.Sorted) (names : List Name) :
    (usage.without names).Sorted :=
  List.Pairwise.filter _ sorted

theorem Sorted.captureAll (sorted : usage.Sorted) : usage.captureAll.Sorted := by
  unfold Sorted Usage.captureAll
  rw [List.pairwise_map]
  exact sorted

theorem Sorted.moved {body : Usage} (sorted : body.Sorted) (bound : List Name) :
    (moved bound body).Sorted :=
  (sorted.without bound).captureAll

theorem Sorted.guarded {body : Usage} (sorted : body.Sorted) (catches : List (Name × Usage))
    (final : Option Usage) :
    (guarded body catches final).Sorted := by
  have handled : ∀ start : Usage, start.Sorted →
      (catches.foldl (fun usage handler =>
        usage.union (handler.2.without [handler.1])) start).Sorted := by
    induction catches with
    | nil => exact fun start sorted => sorted
    | cons handler catches ih => exact fun start sorted => ih _ (sorted.union _)
  cases final with
  | none => exact (handled body sorted).captureAll
  | some final => exact ((handled body sorted).union final).captureAll

theorem sorted_parallel (clauses : List (Name × Usage)) (body : Usage) :
    (parallel clauses body).Sorted :=
  (sorted_unionAll _).union _

theorem sorted_sequential {clauses : List (Name × Usage)}
    (inits : ∀ clause ∈ clauses, clause.2.Sorted) (sorted : body.Sorted) :
    (sequential clauses body).Sorted := by
  cases clauses with
  | nil => exact sorted
  | cons clause clauses => exact (inits clause List.mem_cons_self).union _

theorem sorted_recursive (clauses : List (Name × Usage)) (body : Usage) :
    (recursive clauses body).Sorted :=
  ((sorted_unionAll _).union body).without _

/-! ## Look-up in a union -/

theorem lookup_insertUse (name : Name) (use : VarUse)
    (sorted : entries.Pairwise fun left right => left.1 < right.1) (other : Name) :
    (insertUse name use entries).lookup other =
      if other = name then (entries.lookup name).merge VarUse.merge (some use)
      else entries.lookup other := by
  induction entries with
  | nil => by_cases same : other = name <;> simp [insertUse, lookup_cons_ite, same]
  | cons head tail ih =>
      obtain ⟨first, firstUse⟩ := head
      obtain ⟨below, rest⟩ := List.pairwise_cons.mp sorted
      simp only [insertUse]
      split
      next less =>
        -- Everything that follows is greater than the new name.
        have absent : List.lookup name ((first, firstUse) :: tail) = none := by
          rw [List.lookup_eq_none_iff]
          intro entry member
          have greater : name < entry.1 := by
            rcases List.mem_cons.mp member with rfl | later
            · exact less
            · exact String.lt_trans less (below entry later)
          refine bne_iff_ne.mpr fun same => ?_
          rw [same] at greater
          exact String.lt_irrefl _ greater
        rw [absent, lookup_cons_ite]
        by_cases same : other = name <;> simp [same]
      next notLess =>
        split
        next same =>
          subst same
          by_cases same : other = name <;> simp [lookup_cons_ite, same]
        next different =>
          rw [lookup_cons_ite, ih rest, lookup_cons_ite, lookup_cons_ite]
          by_cases same : other = name
          · simp [same, different]
          · simp [same]

theorem lookup_foldl_insertUse {added : List (Name × VarUse)}
    (addedSorted : added.Pairwise fun left right => left.1 < right.1)
    (sorted : entries.Pairwise fun left right => left.1 < right.1) (name : Name) :
    (added.foldl (fun entries entry => insertUse entry.1 entry.2 entries)
        entries).lookup name =
      (entries.lookup name).merge VarUse.merge (added.lookup name) := by
  induction added generalizing entries with
  | nil => simp
  | cons entry added ih =>
      obtain ⟨first, use⟩ := entry
      obtain ⟨below, rest⟩ := List.pairwise_cons.mp addedSorted
      rw [List.foldl_cons, ih rest (sorted_insertUse _ _ sorted),
        lookup_insertUse _ _ sorted, lookup_cons_ite]
      by_cases same : name = first
      · subst same
        have absent : added.lookup name = none := by
          rw [List.lookup_eq_none_iff]
          intro entry member
          refine bne_iff_ne.mpr fun same => ?_
          have less := below entry member
          rw [← same] at less
          exact String.lt_irrefl _ less
        simp [absent]
      · simp [same]

/-- A union merges the uses that its sides have for a name. -/
theorem get?_union (leftSorted : left.Sorted) (rightSorted : right.Sorted) (name : Name) :
    (left.union right).get? name =
      (left.get? name).merge VarUse.merge (right.get? name) :=
  lookup_foldl_insertUse rightSorted leftSorted name

/-! ## Free names -/

theorem mem_names_iff : name ∈ usage.names ↔ ∃ use, (name, use) ∈ usage.entries := by
  simp [names]

theorem mem_names_iff_get? : name ∈ usage.names ↔ (usage.get? name).isSome := by
  rw [get?, List.lookup_isSome_iff, mem_names_iff]
  constructor
  · rintro ⟨use, member⟩
    exact ⟨(name, use), member, by simp⟩
  · rintro ⟨⟨other, use⟩, member, same⟩
    have same : name = other := by simpa using same
    exact ⟨use, same ▸ member⟩

@[simp]
theorem names_empty : empty.names = [] :=
  rfl

@[simp]
theorem names_read (name : Name) : (read name).names = [name] :=
  rfl

@[simp]
theorem names_assigned (name : Name) : (assigned name).names = [name] :=
  rfl

theorem mem_names_insertUse {other : Name} {use : VarUse} :
    other ∈ (insertUse name use entries).map (·.1) ↔
      other = name ∨ other ∈ entries.map (·.1) := by
  induction entries with
  | nil => simp [insertUse]
  | cons head tail ih =>
      obtain ⟨first, firstUse⟩ := head
      simp only [insertUse]
      split
      · simp
      · split
        next same => simp [same]
        next => rw [List.map_cons, List.mem_cons, ih, List.map_cons, List.mem_cons]
                exact or_left_comm

@[simp]
theorem mem_names_union :
    name ∈ (left.union right).names ↔ name ∈ left.names ∨ name ∈ right.names := by
  suffices ∀ added entries : List (Name × VarUse),
      name ∈ (added.foldl (fun entries entry => insertUse entry.1 entry.2 entries)
        entries).map (·.1) ↔ name ∈ entries.map (·.1) ∨ name ∈ added.map (·.1) from
    this right.entries left.entries
  intro added
  induction added with
  | nil => simp
  | cons entry added ih =>
      intro entries
      rw [List.foldl_cons, ih, mem_names_insertUse, List.map_cons, List.mem_cons]
      constructor
      · rintro ((same | old) | later)
        · exact Or.inr (Or.inl same)
        · exact Or.inl old
        · exact Or.inr (Or.inr later)
      · rintro (old | same | later)
        · exact Or.inl (Or.inr old)
        · exact Or.inl (Or.inl same)
        · exact Or.inr later

@[simp]
theorem mem_names_unionAll :
    name ∈ (unionAll usages).names ↔ ∃ usage ∈ usages, name ∈ usage.names := by
  suffices ∀ start : Usage, name ∈ (usages.foldl union start).names ↔
      name ∈ start.names ∨ ∃ usage ∈ usages, name ∈ usage.names by
    rw [unionAll, this]
    simp
  induction usages with
  | nil => simp
  | cons usage usages ih =>
      intro start
      rw [List.foldl_cons, ih, mem_names_union]
      simp [or_assoc]

@[simp]
theorem mem_names_without {bound : List Name} :
    name ∈ (usage.without bound).names ↔ name ∈ usage.names ∧ name ∉ bound := by
  simp [names, without]

@[simp]
theorem names_captureAll (usage : Usage) : usage.captureAll.names = usage.names := by
  simp [names, captureAll]

/-- What a boundary around a body moves is what the body uses from outside. -/
theorem mem_names_moved {bound : List Name} :
    name ∈ (moved bound body).names ↔ name ∈ body.names ∧ name ∉ bound := by
  rw [moved, names_captureAll, mem_names_without]

theorem mem_names_foldl_handlers {catches : List (Name × Usage)} :
    name ∈ (catches.foldl
        (fun usage handler => usage.union (handler.2.without [handler.1])) body).names ↔
      name ∈ body.names ∨
        ∃ handler ∈ catches, name ∈ handler.2.names ∧ name ≠ handler.1 := by
  induction catches generalizing body with
  | nil => simp
  | cons handler catches ih =>
      rw [List.foldl_cons, ih, mem_names_union, mem_names_without]
      simp [or_assoc]

/-- What a `try` moves is what its parts use from outside. -/
theorem mem_names_guarded {catches : List (Name × Usage)} {final : Option Usage} :
    name ∈ (guarded body catches final).names ↔
      (name ∈ body.names ∨
        ∃ handler ∈ catches, name ∈ handler.2.names ∧ name ≠ handler.1) ∨
        ∃ last ∈ final, name ∈ last.names := by
  unfold guarded
  cases final with
  | none => simp [mem_names_foldl_handlers]
  | some last => simp [mem_names_foldl_handlers, mem_names_union]

/-! ## Captured names -/

theorem isCaptured_union (leftSorted : left.Sorted) (rightSorted : right.Sorted) (name : Name) :
    (left.union right).isCaptured name =
      (left.isCaptured name || right.isCaptured name) := by
  rw [isCaptured, get?_union leftSorted rightSorted,
    Option.any_merge (fun _ _ => rfl)]
  rfl

theorem isCaptured_unionAll (sorted : ∀ usage ∈ usages, usage.Sorted) (name : Name) :
    (unionAll usages).isCaptured name = usages.any (·.isCaptured name) := by
  suffices ∀ start : Usage, start.Sorted →
      (usages.foldl union start).isCaptured name =
        (start.isCaptured name || usages.any (·.isCaptured name)) by
    rw [unionAll, this empty sorted_empty]
    rfl
  induction usages with
  | nil => simp
  | cons usage usages ih =>
      intro start startSorted
      have usageSorted := sorted usage List.mem_cons_self
      rw [List.foldl_cons,
        ih (List.forall_mem_cons.mp sorted).2 _
          (startSorted.union usage),
        isCaptured_union startSorted usageSorted, List.any_cons, Bool.or_assoc]

theorem get?_without (usage : Usage) (bound : List Name) (name : Name) :
    (usage.without bound).get? name =
      if name ∈ bound then none else usage.get? name := by
  simp only [get?, without]
  induction usage.entries with
  | nil => simp
  | cons entry entries ih =>
      obtain ⟨first, use⟩ := entry
      rw [List.filter_cons, lookup_cons_ite]
      by_cases firstBound : first ∈ bound
      · rw [if_neg (by simpa using firstBound), ih]
        by_cases same : name = first
        · simp [same, firstBound]
        · simp [same]
      · rw [if_pos (by simpa using firstBound), lookup_cons_ite, ih]
        by_cases same : name = first
        · simp [same, firstBound]
        · simp [same]

theorem isCaptured_without (usage : Usage) (bound : List Name) (name : Name) :
    (usage.without bound).isCaptured name =
      (!bound.contains name && usage.isCaptured name) := by
  rw [isCaptured, get?_without]
  by_cases isBound : name ∈ bound <;> simp [isBound, isCaptured]

theorem get?_captureAll (usage : Usage) (name : Name) :
    usage.captureAll.get? name =
      (usage.get? name).map fun use => { use with captured := true } := by
  simp only [get?, captureAll]
  induction usage.entries with
  | nil => rfl
  | cons entry entries ih =>
      rw [List.map_cons, List.lookup_cons, List.lookup_cons, ih]
      cases name == entry.1 <;> rfl

theorem isCaptured_captureAll (usage : Usage) (name : Name) :
    usage.captureAll.isCaptured name = decide (name ∈ usage.names) := by
  rw [isCaptured, get?_captureAll, Bool.eq_iff_iff, decide_eq_true_iff,
    mem_names_iff_get?]
  cases usage.get? name <;> simp

/-! ## Uses within uses -/

/-- Every name that is free on the inside is free on the outside, and captured
there if it is captured on the inside. -/
structure Within (inner outer : Usage) : Prop where
  names : ∀ name ∈ inner.names, name ∈ outer.names
  captured : ∀ name, inner.isCaptured name = true → outer.isCaptured name = true

theorem Within.refl (usage : Usage) : usage.Within usage :=
  ⟨fun _ member => member, fun _ captured => captured⟩

theorem Within.trans {first second third : Usage}
    (lower : first.Within second) (upper : second.Within third) :
    first.Within third :=
  ⟨fun name member => upper.names name (lower.names name member),
    fun name captured => upper.captured name (lower.captured name captured)⟩

theorem within_union_left (leftSorted : left.Sorted) (rightSorted : right.Sorted) :
    left.Within (left.union right) where
  names _ member := mem_names_union.mpr (Or.inl member)
  captured name captured := by
    rw [isCaptured_union leftSorted rightSorted, captured, Bool.true_or]

theorem within_union_right (leftSorted : left.Sorted) (rightSorted : right.Sorted) :
    right.Within (left.union right) where
  names _ member := mem_names_union.mpr (Or.inr member)
  captured name captured := by
    rw [isCaptured_union leftSorted rightSorted, captured, Bool.or_true]

theorem within_unionAll (sorted : ∀ usage ∈ usages, usage.Sorted) (member : usage ∈ usages) :
    usage.Within (unionAll usages) where
  names _ free := mem_names_unionAll.mpr ⟨usage, member, free⟩
  captured name captured := by
    rw [isCaptured_unionAll sorted, List.any_eq_true]
    exact ⟨usage, member, captured⟩

theorem Within.without {inner outer : Usage} (within : inner.Within outer)
    (bound : List Name) : (inner.without bound).Within (outer.without bound) where
  names name member := by
    rw [mem_names_without] at member ⊢
    exact ⟨within.names name member.1, member.2⟩
  captured name captured := by
    rw [isCaptured_without, Bool.and_eq_true] at captured ⊢
    exact ⟨captured.1, within.captured name captured.2⟩

end Usage

end ClassForge
