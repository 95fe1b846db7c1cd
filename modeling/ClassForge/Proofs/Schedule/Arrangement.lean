import ClassForge.Build.Schedule
import ClassForge.Proofs.Outcome
import Mathlib.Data.List.Pairwise
import Mathlib.Data.List.Perm.Basic
import Mathlib.Data.List.Sort
import Mathlib.Data.String.Basic

/-!
# Arranging the steps of a phase

The order of a phase is found by counting down: a step becomes ready when the last
step that it waits for has run, and ready steps wait in a queue.  It is the order in
which, again and again, the first of the sorted steps runs that has everything it
depends on; and the steps that are left over are the ones that never have it.
-/

namespace ClassForge

namespace Schedule

variable {τ : Type} {steps : List (Step τ)} {phase : Phase} {key : Key} {step producer : Step τ}
variable {node : Node τ} {remaining after : List (Node τ)} {count : Nat} {done : Array Bool}
variable {position : Nat}

/-! ## Nodes -/

theorem mem_members :
    (step, position) ∈ members steps phase ↔
      steps[position]? = some step ∧ step.phase = phase := by
  simp [members, List.mem_zipIdx_iff_getElem?]

/-- The members of a phase are its steps, each with a position. -/
theorem members_map_step :
    (members steps phase).map Prod.fst = steps.filter fun step => step.phase = phase := by
  have filtered := List.filter_map (f := Prod.fst) (l := steps.zipIdx)
    (p := fun step : Step τ => decide (step.phase = phase))
  rw [List.zipIdx_map_fst] at filtered
  exact filtered.symm

theorem position?_eq_some (found : position? (members steps phase) key = some position) :
    ∃ step, steps[position]? = some step ∧ step.phase = phase ∧ key ∈ step.outputs := by
  obtain ⟨⟨step, _⟩, first, rfl⟩ := Option.map_eq_some_iff.mp found
  obtain ⟨atPosition, ofPhase⟩ := mem_members.mp (List.mem_of_find?_eq_some first)
  have holds := List.find?_some first
  exact ⟨step, atPosition, ofPhase, by simpa using holds⟩

theorem exists_position? (member : producer ∈ steps) (ofPhase : producer.phase = phase)
    (output : key ∈ producer.outputs) :
    ∃ position, position? (members steps phase) key = some position := by
  obtain ⟨index, atIndex⟩ := List.mem_iff_getElem?.mp member
  cases found : position? (members steps phase) key with
  | none =>
      have nobody := Option.map_eq_none_iff.mp found
      have absent := List.find?_eq_none.mp nobody _ (mem_members.mpr ⟨atIndex, ofPhase⟩)
      simp [output] at absent
  | some position => exact ⟨position, rfl⟩

theorem mem_nodes :
    node ∈ nodes steps phase ↔
      steps[node.position]? = some node.step ∧ node.step.phase = phase ∧
        node.needs = node.step.inputs.filterMap (position? (members steps phase)) := by
  simp only [nodes, List.mem_map, Prod.exists]
  constructor
  · rintro ⟨step, position, member, rfl⟩
    obtain ⟨atPosition, ofPhase⟩ := mem_members.mp member
    exact ⟨atPosition, ofPhase, rfl⟩
  · rintro ⟨atPosition, ofPhase, needs⟩
    exact ⟨node.step, node.position, mem_members.mpr ⟨atPosition, ofPhase⟩, by rw [← needs]⟩

/-- Every step has one node. -/
theorem nodes_nodup : ((nodes steps phase).map Node.position).Nodup := by
  have positions : (nodes steps phase).map Node.position =
      (members steps phase).map Prod.snd := by
    simp [nodes, Function.comp_def]
  rw [positions]
  refine List.Nodup.sublist (List.Sublist.map _ List.filter_sublist) ?_
  rw [List.zipIdx_map_snd]
  exact List.nodup_range'

/-- The nodes of a phase are its steps, with what they depend on. -/
theorem nodes_map_step :
    (nodes steps phase).map Node.step = steps.filter fun step => step.phase = phase := by
  rw [← members_map_step]
  simp [nodes, Function.comp_def]

/-! ## The first step that is ready -/

/-- A step is ready when the steps that it depends on are done. -/
def isReady (done : Array Bool) (node : Node τ) : Bool :=
  node.needs.all fun position => done.getD position false

/-- Take the first ready step again and again, at most `count` times.  The result
is the order in which the steps run and the steps that never become ready. -/
def arrange : (count : Nat) → (done : Array Bool) → (remaining : List (Node τ)) →
    List (Node τ) × List (Node τ)
  | 0, _, remaining => ([], remaining)
  | count + 1, done, remaining =>
      match remaining.find? (isReady done) with
      | none => ([], remaining)
      | some next =>
          let others := remaining.filter fun node => node.position != next.position
          let (order, stuck) :=
            arrange count (done.setIfInBounds next.position true) others
          (next :: order, stuck)

/-- Taking one node out of some with different positions. -/
theorem perm_cons_filter (distinct : (remaining.map Node.position).Nodup) {next : Node τ}
    (member : next ∈ remaining) :
    (next :: remaining.filter fun node => node.position != next.position).Perm remaining := by
  induction remaining with
  | nil => cases member
  | cons node remaining ih =>
      rw [List.map_cons, List.nodup_cons] at distinct
      obtain ⟨fresh, distinct⟩ := distinct
      rcases List.mem_cons.mp member with rfl | inRest
      · have untouched : remaining.filter (fun node => node.position != next.position) =
            remaining := by
          refine List.filter_eq_self.mpr fun other present => ?_
          have differs : other.position ≠ next.position := fun same =>
            fresh (same ▸ List.mem_map_of_mem present)
          simpa using differs
        simp [untouched]
      · have differs : node.position ≠ next.position := fun same =>
          fresh (same ▸ List.mem_map_of_mem inRest)
        rw [List.filter_cons_of_pos (by simpa using differs)]
        exact (List.Perm.swap node next _).trans ((ih distinct inRest).cons node)

/-- Every node is either placed or stuck. -/
theorem arrange_perm (distinct : (remaining.map Node.position).Nodup) :
    ((arrange count done remaining).1 ++ (arrange count done remaining).2).Perm remaining := by
  induction count generalizing done remaining with
  | zero => exact .refl _
  | succ count ih =>
      rw [arrange]
      cases found : remaining.find? (isReady done) with
      | none => exact .refl _
      | some next =>
          have taken := perm_cons_filter distinct (List.mem_of_find?_eq_some found)
          refine List.Perm.trans (List.Perm.cons next (ih ?_)) taken
          exact List.Nodup.sublist (List.Sublist.map _ List.filter_sublist) distinct

/-- Whatever an arranged node depends on is done before, or stands before it. -/
theorem arrange_ready {before : List (Node τ)}
    (split : (arrange count done remaining).1 = before ++ node :: after) :
    ∀ position ∈ node.needs, done.getD position false = true ∨
      ∃ prior ∈ before, prior.position = position := by
  induction count generalizing done remaining before with
  | zero => simp [arrange] at split
  | succ count ih =>
      rw [arrange] at split
      cases found : remaining.find? (isReady done) with
      | none => simp [found] at split
      | some next =>
          simp only [found] at split
          intro position needed
          cases before with
          | nil =>
              obtain ⟨rfl, -⟩ := List.cons.inj split
              have ready : isReady done next = true := List.find?_some found
              exact .inl (List.all_eq_true.mp ready position needed)
          | cons first before =>
              obtain ⟨rfl, rest⟩ := List.cons.inj split
              rcases ih rest position needed with marked | ⟨prior, member, same⟩
              · rw [Array.getD_eq_getD_getElem?, Array.getElem?_setIfInBounds] at marked
                by_cases own : next.position = position
                · exact .inr ⟨next, by simp, own⟩
                · rw [if_neg own, ← Array.getD_eq_getD_getElem?] at marked
                  exact .inl marked
              · exact .inr ⟨prior, by simp [member], same⟩

/-- A node that never becomes ready depends on one that was not arranged. -/
theorem arrange_stuck (inBounds : ∀ node ∈ remaining, node.position < done.size)
    (enough : remaining.length ≤ count) (stuck : node ∈ (arrange count done remaining).2) :
    ∃ position ∈ node.needs,
      ∀ prior ∈ (arrange count done remaining).1, prior.position ≠ position := by
  suffices ∃ position ∈ node.needs, done.getD position false = false ∧
      ∀ prior ∈ (arrange count done remaining).1, prior.position ≠ position by
    obtain ⟨position, needed, -, apart⟩ := this
    exact ⟨position, needed, apart⟩
  induction count generalizing done remaining with
  | zero =>
      rw [List.length_eq_zero_iff.mp (Nat.le_zero.mp enough)] at stuck
      cases stuck
  | succ count ih =>
      rw [arrange] at stuck ⊢
      cases found : remaining.find? (isReady done) with
      | none =>
          simp only [found] at stuck
          have waits := List.find?_eq_none.mp found node stuck
          simp only [isReady, List.all_eq_true, not_forall] at waits
          obtain ⟨position, needed, undone⟩ := waits
          exact ⟨position, needed, by simpa using undone, by simp⟩
      | some next =>
          simp only [found] at stuck ⊢
          have present := List.mem_of_find?_eq_some found
          have fewer : (remaining.filter fun node => node.position != next.position).length <
              remaining.length :=
            List.length_filter_lt_length_iff_exists.mpr ⟨next, present, by simp⟩
          have inside : ∀ node ∈ remaining.filter fun node => node.position != next.position,
              node.position < (done.setIfInBounds next.position true).size := by
            intro other member
            rw [Array.size_setIfInBounds]
            exact inBounds other (List.mem_filter.mp member).1
          obtain ⟨position, needed, undone, apart⟩ := ih inside (by omega) stuck
          rw [Array.getD_eq_getD_getElem?, Array.getElem?_setIfInBounds] at undone
          have differs : next.position ≠ position := by
            rintro rfl
            simp [inBounds next present] at undone
          rw [if_neg differs, ← Array.getD_eq_getD_getElem?] at undone
          refine ⟨position, needed, undone, ?_⟩
          intro prior member
          rcases List.mem_cons.mp member with rfl | later
          · exact differs
          · exact apart prior later

/-- The nodes that ordering starts from. -/
def sortedNodes (steps : List (Step τ)) (phase : Phase) : List (Node τ) :=
  (nodes steps phase).mergeSort precedes

/-- Nodes go by label first and by position second. -/
theorem precedes_iff {left right : Node τ} :
    precedes left right = true ↔ left.step.label < right.step.label ∨
      left.step.label = right.step.label ∧ left.position ≤ right.position := by
  unfold precedes
  rcases lt_trichotomy left.step.label right.step.label with less | same | greater
  · have compared := compare_lt_iff_lt.mpr less
    simp only [compared, less, true_or, iff_true]
    rfl
  · rw [compare_eq_iff_eq.mpr same]
    simp only [same, lt_irrefl, true_and, false_or]
    exact Nat.isLE_compare
  · have compared := compare_gt_iff_gt.mpr greater
    simp only [compared, greater.ne', not_lt_of_gt greater, false_and, or_self, iff_false]
    simp

theorem precedes_trans (first second third : Node τ) (early : precedes first second = true)
    (late : precedes second third = true) : precedes first third = true := by
  rw [precedes_iff] at *
  rcases early with less | ⟨same, before⟩
  · rcases late with lessLate | ⟨sameLate, -⟩
    · exact .inl (less.trans lessLate)
    · exact .inl (sameLate ▸ less)
  · rcases late with lessLate | ⟨sameLate, beforeLate⟩
    · exact .inl (same ▸ lessLate)
    · exact .inr ⟨same.trans sameLate, before.trans beforeLate⟩

theorem precedes_total (left right : Node τ) :
    (precedes left right || precedes right left) = true := by
  rw [Bool.or_eq_true, precedes_iff, precedes_iff]
  rcases lt_trichotomy left.step.label right.step.label with less | same | greater
  · exact .inl (.inl less)
  · rcases Nat.le_total left.position right.position with before | after
    · exact .inl (.inr ⟨same, before⟩)
    · exact .inr (.inr ⟨same.symm, after⟩)
  · exact .inr (.inl greater)

instance : Std.Total fun left right : Node τ => precedes left right = true :=
  ⟨fun left right => by simpa using precedes_total left right⟩

instance : IsTrans (Node τ) fun left right => precedes left right = true :=
  ⟨precedes_trans⟩

/-- Only nodes at the same position precede each other. -/
theorem position_eq_of_precedes {left right : Node τ} (before : precedes left right = true)
    (after : precedes right left = true) : left.position = right.position := by
  rw [precedes_iff] at before after
  rcases before with less | ⟨same, before⟩
  · rcases after with greater | ⟨same, -⟩
    · exact (lt_asymm less greater).elim
    · exact (less.ne same.symm).elim
  · rcases after with greater | ⟨-, after⟩
    · exact (greater.ne same.symm).elim
    · exact Nat.le_antisymm before after

/-- Sorting loses no node. -/
theorem sortedNodes_perm : (sortedNodes steps phase).Perm (nodes steps phase) :=
  List.mergeSort_perm _ _

theorem sortedNodes_pairwise :
    (sortedNodes steps phase).Pairwise fun left right => precedes left right = true :=
  List.pairwise_mergeSort precedes_trans precedes_total _

/-- Nodes at different positions can be sorted in one way only. -/
theorem eq_of_sorted_perm {first second : List (Node τ)}
    (distinct : (second.map Node.position).Nodup)
    (sortedFirst : first.Pairwise fun left right => precedes left right = true)
    (sortedSecond : second.Pairwise fun left right => precedes left right = true)
    (perm : first.Perm second) : first = second :=
  perm.eq_of_pairwise (fun _ _ isLeft isRight before after =>
    List.inj_on_of_nodup_map distinct (perm.subset isLeft) isRight
      (position_eq_of_precedes before after)) sortedFirst sortedSecond

/-- The nodes in the order in which they run, and those that never become ready. -/
def arranged (steps : List (Step τ)) (phase : Phase) : List (Node τ) × List (Node τ) :=
  arrange (sortedNodes steps phase).length (Array.replicate steps.length false)
    (sortedNodes steps phase)

/-- Every step of the phase is either placed or stuck. -/
theorem arranged_perm :
    ((arranged steps phase).1 ++ (arranged steps phase).2).Perm (nodes steps phase) := by
  refine (arrange_perm ?_).trans sortedNodes_perm
  exact ((sortedNodes_perm.map Node.position).nodup_iff).mpr nodes_nodup

/-! ## Counting down -/

/-- What stands in an array after one of its entries is written. -/
theorem getD_setIfInBounds {α : Type} {values : Array α} (inBounds : position < values.size)
    (value default : α) (index : Nat) :
    (values.setIfInBounds position value).getD index default =
      if position = index then value else values.getD index default := by
  rw [Array.getD_eq_getD_getElem?, Array.getElem?_setIfInBounds]
  by_cases same : position = index
  · rw [if_pos same, if_pos same, if_pos inBounds, Option.getD_some]
  · rw [if_neg same, if_neg same, ← Array.getD_eq_getD_getElem?]

/-! ### The queue -/

/-- The ready list is kept in order. -/
theorem enqueue_eq_orderedInsert (node : Node τ) (queue : List (Node τ)) :
    enqueue node queue =
      queue.orderedInsert (fun left right => precedes left right = true) node := by
  induction queue with
  | nil => rfl
  | cons first queue ih => rw [enqueue, List.orderedInsert, ih]

/-- A queue holds what was put into it, in order. -/
theorem foldl_enqueue {late queue sorted : List (Node τ)}
    (inOrder : queue.Pairwise fun left right => precedes left right = true)
    (distinct : (sorted.map Node.position).Nodup)
    (isSorted : sorted.Pairwise fun left right => precedes left right = true)
    (perm : (late ++ queue).Perm sorted) :
    late.foldl (fun ready node => enqueue node ready) queue = sorted := by
  induction late generalizing queue with
  | nil => exact eq_of_sorted_perm distinct inOrder isSorted perm
  | cons node late ih =>
      rw [List.foldl_cons, enqueue_eq_orderedInsert]
      refine ih (inOrder.orderedInsert _ _) (List.Perm.trans ?_ perm)
      exact ((List.perm_orderedInsert _ node queue).append_left late).trans List.perm_middle

/-- Releasing nodes counts each of them down by one and puts those that waited for
one step into the queue. -/
theorem foldl_release {released : List (Node τ)} (distinct : (released.map Node.position).Nodup)
    (frontier : Frontier τ)
    (inBounds : ∀ node ∈ released, node.position < frontier.indegrees.size) :
    (released.foldl .release frontier).indegrees.size = frontier.indegrees.size ∧
      (∀ position, (released.foldl .release frontier).indegrees.getD position 0 =
        if position ∈ released.map Node.position then
          frontier.indegrees.getD position 0 - 1
        else frontier.indegrees.getD position 0) ∧
      (released.foldl .release frontier).ready =
        (released.filter fun node => frontier.indegrees.getD node.position 0 ≤ 1).foldl
          (fun ready node => enqueue node ready) frontier.ready := by
  induction released generalizing frontier with
  | nil => simp
  | cons node released ih =>
      rw [List.map_cons, List.nodup_cons] at distinct
      obtain ⟨fresh, distinct⟩ := distinct
      rw [List.forall_mem_cons] at inBounds
      obtain ⟨own, inBounds⟩ := inBounds
      have written := fun position => getD_setIfInBounds own
        (frontier.indegrees.getD node.position 0 - 1) 0 position
      obtain ⟨size, counts, queue⟩ := ih distinct (frontier.release node)
        (by simpa [Frontier.release] using inBounds)
      refine ⟨size.trans (by simp [Frontier.release]), fun position => ?_, ?_⟩
      · rw [List.foldl_cons, counts position]
        simp only [Frontier.release, written, List.map_cons, List.mem_cons]
        by_cases same : node.position = position
        · subst same
          rw [if_neg fresh, if_pos rfl, if_pos (.inl rfl)]
        · simp only [if_neg same, Ne.symm same, false_or]
      · rw [List.foldl_cons, queue]
        have others : ∀ other ∈ released,
            (frontier.release node).indegrees.getD other.position 0 =
              frontier.indegrees.getD other.position 0 := by
          intro other member
          have differs : node.position ≠ other.position := fun same =>
            fresh (same ▸ List.mem_map_of_mem member)
          simp only [Frontier.release, written, if_neg differs]
        rw [List.filter_congr fun other member => by rw [others other member]]
        by_cases last : frontier.indegrees.getD node.position 0 ≤ 1
        · rw [List.filter_cons_of_pos (by simpa only [decide_eq_true_eq] using last),
            List.foldl_cons]
          simp only [Frontier.release, Nat.sub_eq_zero_of_le last, if_true]
        · have more : frontier.indegrees.getD node.position 0 - 1 ≠ 0 := by omega
          rw [List.filter_cons_of_neg (by simpa only [decide_eq_true_eq] using last)]
          simp only [Frontier.release, if_neg more]

/-! ### What a node still waits for -/

/-- The steps that a node depends on and that are not done. -/
def unmet (done : Array Bool) (node : Node τ) : List Nat :=
  node.needs.eraseDups.filter fun position => !done.getD position false

theorem mem_unmet :
    position ∈ unmet done node ↔ position ∈ node.needs ∧ done.getD position false = false := by
  simp [unmet]

/-- A node is ready when it waits for nothing. -/
theorem isReady_iff : isReady done node = true ↔ unmet done node = [] := by
  simp [isReady, unmet, List.filter_eq_nil_iff]

/-- When one more step is done, the nodes that depend on it wait for one step less. -/
theorem unmet_set (inBounds : position < done.size) (node : Node τ) :
    unmet (done.setIfInBounds position true) node = (unmet done node).erase position := by
  rw [unmet, unmet, ((nodup_eraseDups _).filter _).erase_eq_filter, List.filter_filter]
  refine List.filter_congr fun other _ => ?_
  rw [getD_setIfInBounds inBounds]
  by_cases same : position = other
  · simp [same]
  · simp [same, Ne.symm same]

/-! ### The two ways agree -/

/-- How far counting down has come agrees with what is done and what remains. -/
structure Follows (all : List (Node τ)) (done : Array Bool) (remaining : List (Node τ))
    (frontier : Frontier τ) : Prop where
  size : frontier.indegrees.size = done.size
  sorted : remaining.Pairwise fun left right => precedes left right = true
  once : (remaining.map Node.position).Nodup
  among : ∀ node ∈ remaining, node ∈ all
  undone : ∀ node ∈ all, node ∈ remaining ↔ done.getD node.position false = false
  closed : ∀ node ∈ all, node ∉ remaining → isReady done node = true
  counts : ∀ node ∈ all, frontier.indegrees.getD node.position 0 = (unmet done node).length
  ready : frontier.ready = remaining.filter (isReady done)

namespace Follows

variable {all : List (Node τ)} {frontier : Frontier τ} (distinct : (all.map Node.position).Nodup)

/-- When the queue is empty, the nodes that remain are those that still wait. -/
theorem stuck (follows : Follows all done remaining frontier) (idle : frontier.ready = [])
    (member : node ∈ all) : 0 < frontier.indegrees.getD node.position 0 ↔ node ∈ remaining := by
  rw [follows.counts node member, List.length_pos_iff, Ne, ← isReady_iff]
  constructor
  · intro waits
    by_contra arranged
    exact waits (follows.closed node member arranged)
  · intro remains ready
    have queued : node ∈ frontier.ready := by
      rw [follows.ready]
      exact List.mem_filter.mpr ⟨remains, ready⟩
    rw [idle] at queued
    cases queued

section

variable {indegrees : Array Nat} {next : Node τ} {ready : List (Node τ)}
    (follows : Follows all done remaining ⟨indegrees, next :: ready⟩)

include follows

theorem next_isReady : next ∈ remaining ∧ isReady done next = true := by
  have queued : next :: ready = remaining.filter (isReady done) := follows.ready
  exact List.mem_filter.mp (queued ▸ List.mem_cons_self)

/-- The dependents of the next step are the nodes that still wait for it. -/
theorem mem_dependents :
    node ∈ dependents all next.position ↔ node ∈ all ∧ next.position ∈ unmet done node := by
  have remains := follows.next_isReady.1
  have undone := (follows.undone next (follows.among next remains)).mp remains
  simp [dependents, mem_unmet, undone]

/-- Behind the next step, the queue holds the other nodes that wait for nothing. -/
theorem mem_ready :
    node ∈ ready ↔ node ≠ next ∧ node ∈ remaining ∧ unmet done node = [] := by
  have queued : next :: ready = remaining.filter (isReady done) := follows.ready
  have once : (next :: ready).Nodup := queued ▸ (follows.once.of_map _).filter _
  have isQueued : node ∈ next :: ready ↔ node ∈ remaining ∧ isReady done node = true :=
    queued ▸ List.mem_filter
  rw [← isReady_iff, ← isQueued, List.mem_cons]
  constructor
  · exact fun member => ⟨fun same => (List.nodup_cons.mp once).1 (same ▸ member), .inr member⟩
  · exact fun ⟨differs, member⟩ => member.resolve_left differs

include distinct

theorem mem_others (member : node ∈ all) :
    (node ∈ remaining.filter fun node => node.position != next.position) ↔
      node ∈ remaining ∧ node ≠ next := by
  rw [List.mem_filter, bne_iff_ne]
  refine and_congr_right fun _ => ⟨fun differs same => differs (same ▸ rfl), fun differs same => ?_⟩
  exact differs (List.inj_on_of_nodup_map distinct member
    (follows.among next follows.next_isReady.1) same)

/-- Once the next step is done, the nodes that are ready are those behind it in the queue
and those that waited for it alone. -/
theorem released_perm (inBounds : next.position < done.size) :
    ((dependents all next.position).filter (fun node =>
        indegrees.getD node.position 0 ≤ 1) ++ ready).Perm
      ((remaining.filter fun node => node.position != next.position).filter
        (isReady (done.setIfInBounds next.position true))) := by
  have nextReady := isReady_iff.mp follows.next_isReady.2
  have queued : next :: ready = remaining.filter (isReady done) := follows.ready
  have once : (next :: ready).Nodup := queued ▸ (follows.once.of_map _).filter _
  refine (List.perm_ext_iff_of_nodup ?_ (((follows.once.of_map _).filter _).filter _)).mpr
    fun node => ?_
  · refine List.nodup_append'.mpr
      ⟨((distinct.of_map _).filter _).filter _, (List.nodup_cons.mp once).2, ?_⟩
    intro node isReleased isQueued
    have waits := (follows.mem_dependents.mp (List.mem_filter.mp isReleased).1).2
    rw [(follows.mem_ready.mp isQueued).2.2] at waits
    cases waits
  rw [List.mem_append, List.mem_filter, follows.mem_dependents, follows.mem_ready,
    List.mem_filter, isReady_iff, unmet_set inBounds, decide_eq_true_eq]
  by_cases member : node ∈ all
  · rw [follows.mem_others distinct member,
      show indegrees.getD node.position 0 = _ from follows.counts node member]
    by_cases waits : next.position ∈ unmet done node
    · have unready : unmet done node ≠ [] := List.ne_nil_of_mem waits
      have remains : node ∈ remaining := by
        by_contra arranged
        exact unready (isReady_iff.mp (follows.closed node member arranged))
      have differs : node ≠ next := fun same => unready (same ▸ nextReady)
      have last : (unmet done node).erase next.position = [] ↔ (unmet done node).length ≤ 1 := by
        rw [← List.length_eq_zero_iff, List.length_erase_of_mem waits, Nat.sub_eq_zero_iff_le]
      simp only [last, member, waits, unready, remains, differs, true_and, ne_eq,
        not_false_eq_true, and_false, or_false]
    · rw [List.erase_of_not_mem waits]
      simp only [waits, and_false, false_and, false_or, ne_eq]
      exact ⟨fun ⟨differs, remains, met⟩ => ⟨⟨remains, differs⟩, met⟩,
        fun ⟨⟨remains, differs⟩, met⟩ => ⟨differs, remains, met⟩⟩
  · constructor
    · rintro (⟨⟨inAll, -⟩, -⟩ | ⟨-, remains, -⟩)
      · exact (member inAll).elim
      · exact (member (follows.among node remains)).elim
    · exact fun ⟨kept, _⟩ => (member (follows.among node (List.mem_filter.mp kept).1)).elim

/-- Running the next step and releasing its dependents keeps the agreement. -/
theorem advance (inBounds : ∀ node ∈ all, node.position < done.size) :
    Follows all (done.setIfInBounds next.position true)
      (remaining.filter fun node => node.position != next.position)
      ((dependents all next.position).foldl .release ⟨indegrees, ready⟩) := by
  obtain ⟨remains, nextReady⟩ := follows.next_isReady
  have isNode := follows.among next remains
  have own := inBounds next isNode
  have released : ((dependents all next.position).map Node.position).Nodup :=
    List.Nodup.sublist (List.Sublist.map _ List.filter_sublist) distinct
  obtain ⟨size, counts, queue⟩ := foldl_release released ⟨indegrees, ready⟩ fun node member => by
    rw [show indegrees.size = done.size from follows.size]
    exact inBounds node (follows.mem_dependents.mp member).1
  refine ⟨size.trans (follows.size.trans (by simp)), follows.sorted.filter _,
    follows.once.sublist (List.filter_sublist.map _), ?_, ?_, ?_, ?_, ?_⟩
  · exact fun node member => follows.among node (List.mem_filter.mp member).1
  · intro node member
    rw [follows.mem_others distinct member, getD_setIfInBounds own,
      follows.undone node member]
    by_cases same : node = next
    · simp [same]
    · have differs : next.position ≠ node.position := fun samePosition =>
        same (List.inj_on_of_nodup_map distinct member isNode samePosition.symm)
      simp [same, differs]
  · intro node member arranged
    rw [isReady_iff, unmet_set own]
    by_cases same : node = next
    · rw [same, isReady_iff.mp nextReady]
      rfl
    · rw [follows.mem_others distinct member] at arranged
      rw [isReady_iff.mp (follows.closed node member fun stays => arranged ⟨stays, same⟩)]
      rfl
  · intro node member
    have placed : node.position ∈ (dependents all next.position).map Node.position ↔
        next.position ∈ unmet done node := by
      constructor
      · intro isPlace
        obtain ⟨other, isOther, same⟩ := List.mem_map.mp isPlace
        obtain ⟨inAll, waits⟩ := follows.mem_dependents.mp isOther
        rwa [List.inj_on_of_nodup_map distinct inAll member same] at waits
      · exact fun waits => List.mem_map_of_mem (follows.mem_dependents.mpr ⟨member, waits⟩)
    have before : indegrees.getD node.position 0 = (unmet done node).length :=
      follows.counts node member
    rw [counts, unmet_set own, List.length_erase, before]
    simp only [placed]
  · have queued : next :: ready = remaining.filter (isReady done) := follows.ready
    have inOrder : (next :: ready).Pairwise fun left right => precedes left right = true :=
      queued ▸ follows.sorted.filter _
    rw [queue]
    exact foldl_enqueue (List.pairwise_cons.mp inOrder).2
      (follows.once.sublist ((List.filter_sublist.trans List.filter_sublist).map _))
      ((follows.sorted.filter _).filter _) (follows.released_perm distinct own)

end

end Follows

/-- Counting down arranges the same nodes in the same order, and the nodes that it leaves
waiting are those that are left over. -/
theorem drain_eq_arrange {all : List (Node τ)} {frontier : Frontier τ}
    (distinct : (all.map Node.position).Nodup) (inBounds : ∀ node ∈ all, node.position < done.size)
    (follows : Follows all done remaining frontier) (enough : remaining.length ≤ count) :
    (drain all count frontier).1 = (arrange count done remaining).1 ∧
      ∀ node ∈ all, 0 < (drain all count frontier).2.getD node.position 0 ↔
        node ∈ (arrange count done remaining).2 := by
  induction count generalizing done remaining frontier with
  | zero =>
      have idle : frontier.ready = [] := by
        rw [follows.ready, List.length_eq_zero_iff.mp (Nat.le_zero.mp enough)]
        rfl
      exact ⟨rfl, fun node member => follows.stuck idle member⟩
  | succ count ih =>
      have first : remaining.find? (isReady done) = frontier.ready.head? := by
        rw [follows.ready, List.head?_filter]
      obtain ⟨indegrees, ready⟩ := frontier
      cases ready with
      | nil =>
          rw [arrange, first]
          exact ⟨rfl, fun node member => follows.stuck rfl member⟩
      | cons next ready =>
          have remains : next ∈ remaining := List.mem_of_find?_eq_some first
          have fewer : (remaining.filter fun node => node.position != next.position).length <
              remaining.length :=
            List.length_filter_lt_length_iff_exists.mpr ⟨next, remains, by simp⟩
          obtain ⟨sameOrder, sameStuck⟩ := ih (by simpa using inBounds)
            (follows.advance distinct inBounds) (by omega)
          rw [arrange, first]
          exact ⟨congrArg (next :: ·) sameOrder, sameStuck⟩

/-- At first a node waits for as many steps as it depends on. -/
theorem initial_indegrees {all : List (Node τ)} (distinct : (all.map Node.position).Nodup)
    (counts : Array Nat) (inBounds : ∀ node ∈ all, node.position < counts.size) :
    let written := all.foldl (fun counts node =>
      counts.setIfInBounds node.position node.needs.eraseDups.length) counts
    written.size = counts.size ∧
      (∀ position ∉ all.map Node.position, written.getD position 0 = counts.getD position 0) ∧
      ∀ node ∈ all, written.getD node.position 0 = node.needs.eraseDups.length := by
  induction all generalizing counts with
  | nil => simp
  | cons node all ih =>
      rw [List.map_cons, List.nodup_cons] at distinct
      obtain ⟨fresh, distinct⟩ := distinct
      rw [List.forall_mem_cons] at inBounds
      obtain ⟨own, inBounds⟩ := inBounds
      have set := fun index => getD_setIfInBounds own node.needs.eraseDups.length 0 index
      obtain ⟨size, others, later⟩ := ih distinct
        (counts.setIfInBounds node.position node.needs.eraseDups.length) (by simpa using inBounds)
      refine ⟨size.trans (by simp), fun position absent => ?_, ?_⟩
      · rw [List.map_cons, List.mem_cons, not_or] at absent
        exact (others position absent.2).trans ((set position).trans (if_neg (Ne.symm absent.1)))
      · rw [List.forall_mem_cons]
        exact ⟨(others _ fresh).trans ((set _).trans (if_pos rfl)), later⟩

/-- Before any step has run, counting down agrees with having done nothing. -/
theorem follows_initial :
    Follows (nodes steps phase) (Array.replicate steps.length false) (sortedNodes steps phase)
      (.initial (nodes steps phase) steps.length) := by
  have nothing : ∀ position, (Array.replicate steps.length false).getD position false = false := by
    intro position
    rw [Array.getD_eq_getD_getElem?, Array.getElem?_replicate]
    split <;> rfl
  have all : ∀ node : Node τ,
      unmet (Array.replicate steps.length false) node = node.needs.eraseDups := by
    intro node
    exact List.filter_eq_self.mpr fun position _ => by rw [nothing]; rfl
  obtain ⟨size, -, counts⟩ := initial_indegrees (@nodes_nodup _ steps phase)
    (Array.replicate steps.length 0) fun node member => by
      rw [Array.size_replicate]
      exact (List.getElem?_eq_some_iff.mp (mem_nodes.mp member).1).1
  have once : ((sortedNodes steps phase).map Node.position).Nodup :=
    ((sortedNodes_perm.map _).nodup_iff).mpr nodes_nodup
  refine ⟨size.trans (by simp), sortedNodes_pairwise, once,
    fun node member => sortedNodes_perm.subset member, fun node member => ?_,
    fun node member absent => (absent (sortedNodes_perm.symm.subset member)).elim,
    fun node member => (counts node member).trans (congrArg _ (all node).symm), ?_⟩
  · simp only [nothing, sortedNodes_perm.mem_iff, member]
  · refine foldl_enqueue .nil (once.sublist (List.filter_sublist.map _))
      (sortedNodes_pairwise.filter _) ?_
    rw [List.append_nil, List.filter_congr (q := isReady (Array.replicate steps.length false))]
    · exact (sortedNodes_perm.filter _).symm
    · intro node member
      rw [Bool.eq_iff_iff, decide_eq_true_eq, isReady_iff, all node, ← List.length_eq_zero_iff,
        ← counts node member]

/-- Counting down gives the order of the arrangement, and the steps that it leaves waiting are
those that the arrangement leaves over. -/
theorem drain_eq_arranged :
    let (order, indegrees) := drain (nodes steps phase) (nodes steps phase).length
      (.initial (nodes steps phase) steps.length)
    order = (arranged steps phase).1 ∧
      ∀ node ∈ nodes steps phase,
        0 < indegrees.getD node.position 0 ↔ node ∈ (arranged steps phase).2 := by
  have inBounds : ∀ node ∈ nodes steps phase,
      node.position < (Array.replicate steps.length false).size := by
    intro node member
    rw [Array.size_replicate]
    exact (List.getElem?_eq_some_iff.mp (mem_nodes.mp member).1).1
  rw [arranged, sortedNodes_perm.length_eq]
  exact drain_eq_arrange nodes_nodup inBounds follows_initial sortedNodes_perm.length_eq.le

/-- Sorting labels does not depend on their order. -/
theorem mergeSort_labels_eq {left right : List String} (perm : left.Perm right) :
    (left.mergeSort fun left right => (compare left right).isLE) =
      right.mergeSort fun left right => (compare left right).isLE := by
  have isLE : ∀ left right : String, (compare left right).isLE = true ↔ left ≤ right := by
    intro left right
    rw [Ordering.isLE_iff_ne_gt]
    exact compare_le_iff_le
  have sorted : ∀ labels : List String,
      (labels.mergeSort fun left right => (compare left right).isLE).Pairwise (· ≤ ·) := by
    intro labels
    refine (List.pairwise_mergeSort ?_ ?_ labels).imp fun {left right} => (isLE left right).mp
    · intro first second third early late
      exact (isLE _ _).mpr (((isLE _ _).mp early).trans ((isLE _ _).mp late))
    · intro left right
      rw [Bool.or_eq_true, isLE, isLE]
      exact le_total left right
  refine List.Perm.eq_of_pairwise (fun left right _ _ => le_antisymm) (sorted _) (sorted _) ?_
  exact (List.mergeSort_perm _ _).trans (perm.trans (List.mergeSort_perm _ _).symm)

/-- The order of a phase is the arrangement of its nodes, and a cycle is reported with the
labels of the nodes that are left over. -/
theorem order_eq_arranged :
    order steps phase =
      match arranged steps phase with
      | (order, []) => .ok (order.map Node.step)
      | (_, stuck) =>
          .error (.cycle phase.number
            ((stuck.map fun node => node.step.label).mergeSort fun left right =>
              (compare left right).isLE)) := by
  obtain ⟨sameOrder, waiting⟩ := @drain_eq_arranged _ steps phase
  have split : (arranged steps phase).1.length + (arranged steps phase).2.length =
      (nodes steps phase).length := by
    rw [← List.length_append]
    exact arranged_perm.length_eq
  unfold order
  dsimp only
  rw [sameOrder]
  cases left : arranged steps phase with
  | mk sequence stuck =>
  rw [left] at split waiting
  dsimp only at split waiting ⊢
  cases stuck with
  | nil =>
      rw [List.length_nil] at split
      rw [if_neg (by omega)]
  | cons node stuck =>
      rw [List.length_cons] at split
      have once : (node :: stuck).Nodup := by
        have distinct := (@arranged_perm _ steps phase).nodup_iff.mpr
          (nodes_nodup.of_map _)
        rw [left] at distinct
        exact (List.nodup_append'.mp distinct).2.1
      rw [if_pos (by omega), mergeSort_labels_eq (List.Perm.map _ ?_)]
      refine (List.perm_ext_iff_of_nodup ((nodes_nodup.of_map _).filter _) once).mpr fun other => ?_
      rw [List.mem_filter, decide_eq_true_eq]
      constructor
      · exact fun ⟨member, waits⟩ => (waiting other member).mp waits
      · intro isStuck
        have member : other ∈ nodes steps phase :=
          arranged_perm.subset (List.mem_append_right _ (by rw [left]; exact isStuck))
        exact ⟨member, (waiting other member).mpr isStuck⟩

end Schedule

end ClassForge
