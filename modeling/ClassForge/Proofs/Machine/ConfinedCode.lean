import ClassForge.Proofs.Code.WrittenCode
import ClassForge.Proofs.Typing.Operations

/-!
# Code that stays within itself

The code of an expression that is not in tail position leads nowhere but to its own instructions
and to its end: its branches go to labels of its own, it neither returns nor leaves an exception
block, and it assigns neither arguments nor locals that were there before.  `Lower.Confined` says so
of an action that generates code, and goes along with the ways in which such actions are put
together.
-/

namespace ClassForge

variable {binding : Binding}

/-! ## Instructions -/

namespace Instr

/-- An instruction that neither ends its frame nor leaves an exception block, and assigns no
argument and none of the first `least` locals. -/
def isInner (least : Nat) : Instr → Bool
  | storeArg _ | ret | leave _ | endFinally | call _ true | callVirtual _ true => false
  | storeLocal slot => least ≤ slot
  | _ => true

theorem isInner_of_isOperation {instr : Instr} (operation : instr.isOperation = true)
    (least : Nat) : instr.isInner least = true := by
  cases instr <;> first | rfl | cases operation

theorem targets_of_isOperation {instr : Instr} (operation : instr.isOperation = true) :
    instr.targets = [] := by
  cases instr <;> first | rfl | cases operation

end Instr

/-- The code of a literal only pushes it. -/
theorem Literal.code_isOperation (value : Literal) :
    ∀ instr ∈ value.code, instr.isOperation = true := by
  cases value <;> simp [Literal.code, Instr.isOperation]

/-! ## Emitters -/

namespace Emitter

variable {instr : Instr}

/-- Code was added that leads only to itself, to its end and to some known labels. -/
structure Confines (known : List Label) (least : Nat) (before after : Emitter) : Prop where
  precedes : before.Precedes after
  regions : after.regions = before.regions
  pending : after.pending = before.pending
  labels : before.labels.size ≤ after.labels.size
  placed : ∀ index position : Nat, after.labels[index]? = some (some position) →
    before.labels[index]? = some (some position) ∨
      (⟨index⟩ ∈ known ∨ before.labels.size ≤ index) ∧
        before.position ≤ position ∧ position ≤ after.position
  inner : ∀ (position : Nat) (instr : Instr), before.position ≤ position →
    after.instrs[position]? = some instr → instr.isInner least = true
  targets : ∀ (position : Nat) (instr : Instr) (label : Label), before.position ≤ position →
    after.instrs[position]? = some instr → label ∈ instr.targets →
      label ∈ known ∨ before.labels.size ≤ label.index ∧ label.index < after.labels.size

variable {before middle after : Emitter} {known fresh : List Label} {least : Nat}

theorem Precedes.position (precedes : before.Precedes after) :
    before.position ≤ after.position := by
  by_contra shrinks
  have within : after.position < before.instrs.size := Nat.not_le.mp shrinks
  have found := precedes.instrs _ _ (Array.getElem?_eq_getElem within)
  exact absurd (Array.getElem?_eq_some_iff.mp found).1 (Nat.lt_irrefl _)

/-- Instructions that were there are those of the later code. -/
theorem Precedes.instr_of_lt (precedes : before.Precedes after) {position : Nat}
    (within : position < before.position) (found : after.instrs[position]? = some instr) :
    before.instrs[position]? = some instr := by
  have isInstr : before.instrs[position]? = some (before.instrs.getInternal position within) :=
    Array.getElem?_eq_getElem within
  rw [isInstr, ← precedes.instrs _ _ isInstr, found]

theorem nothing_beyond {emitter : Emitter} {position : Nat} (beyond : emitter.position ≤ position)
    (found : emitter.instrs[position]? = some instr) : False :=
  absurd (Array.getElem?_eq_some_iff.mp found).1 (Nat.not_lt.mpr beyond)

theorem Confines.refl (emitter : Emitter) : emitter.Confines known least emitter where
  precedes := .refl _
  regions := rfl
  pending := rfl
  labels := Nat.le_refl _
  placed _ _ := .inl
  inner _ _ beyond found := (nothing_beyond beyond found).elim
  targets _ _ _ beyond found := (nothing_beyond beyond found).elim

/-- Labels that the first part has made may be known to the second one. -/
theorem Confines.trans (first : before.Confines known least middle)
    (second : middle.Confines (fresh ++ known) least after)
    (isFresh : ∀ label ∈ fresh,
      before.labels.size ≤ label.index ∧ label.index < middle.labels.size) :
    before.Confines known least after where
  precedes := first.precedes.trans second.precedes
  regions := second.regions.trans first.regions
  pending := second.pending.trans first.pending
  labels := first.labels.trans second.labels
  placed index position isPlaced := by
    have early := first.precedes.position
    have late := second.precedes.position
    rcases second.placed index position isPlaced with already | ⟨isKnown, from', upTo⟩
    · exact (first.placed index position already).imp_right fun ⟨isKnown, from', upTo⟩ =>
        ⟨isKnown, from', upTo.trans late⟩
    · refine .inr ⟨?_, early.trans from', upTo⟩
      rcases isKnown with isKnown | isNew
      · rcases List.mem_append.mp isKnown with isFirst | isKnown
        · exact .inr (isFresh _ isFirst).1
        · exact .inl isKnown
      · exact .inr (first.labels.trans isNew)
  inner position instr beyond found := by
    by_cases isFirst : position < middle.position
    · exact first.inner position instr beyond (second.precedes.instr_of_lt isFirst found)
    · exact second.inner position instr (Nat.not_lt.mp isFirst) found
  targets position instr label beyond found isTarget := by
    by_cases isFirst : position < middle.position
    · have isInstr := second.precedes.instr_of_lt isFirst found
      exact (first.targets position instr label beyond isInstr isTarget).imp_right
        fun ⟨from', upTo⟩ => ⟨from', upTo.trans_le second.labels⟩
    · rcases second.targets position instr label (Nat.not_lt.mp isFirst) found isTarget with
        isKnown | ⟨from', upTo⟩
      · rcases List.mem_append.mp isKnown with isFirst | isKnown
        · obtain ⟨from', upTo⟩ := isFresh _ isFirst
          exact .inr ⟨from', upTo.trans_le second.labels⟩
        · exact .inl isKnown
      · exact .inr ⟨first.labels.trans from', upTo⟩

theorem Confines.andThen (first : before.Confines known least middle)
    (second : middle.Confines known least after) : before.Confines known least after :=
  @Confines.trans before middle after known [] least first second (List.forall_mem_nil _)

/-- One instruction. -/
theorem confines_emit (inner : instr.isInner least = true)
    (targets : ∀ label ∈ instr.targets, label ∈ known) (emitter : Emitter) :
    emitter.Confines known least (emitter.emit instr) where
  precedes := emitter.precedes_emit instr
  regions := rfl
  pending := rfl
  labels := Nat.le_refl _
  placed _ _ := .inl
  inner position other beyond found := by
    rw [last_of_emit beyond found]
    exact inner
  targets position other label beyond found isTarget := by
    rw [last_of_emit beyond found] at isTarget
    exact .inl (targets label isTarget)
where
  last_of_emit {instr other : Instr} {emitter : Emitter} {position : Nat}
      (beyond : emitter.position ≤ position)
      (found : (emitter.emit instr).instrs[position]? = some other) : other = instr := by
    have found : (emitter.instrs.push instr)[position]? = some other := found
    rw [Array.getElem?_push] at found
    split at found
    · exact (Option.some.inj found).symm
    · exact absurd (Array.getElem?_eq_some_iff.mp found).1 (Nat.not_lt.mpr beyond)

theorem confines_withLabel (emitter : Emitter) :
    emitter.Confines known least emitter.withLabel where
  precedes := precedes_withLabel emitter
  regions := rfl
  pending := rfl
  labels := by simp [withLabel]
  placed index position isPlaced := by
    have isPlaced : (emitter.labels.push none)[index]? = some (some position) := isPlaced
    rw [Array.getElem?_push] at isPlaced
    split at isPlaced
    · cases isPlaced
    · exact .inl isPlaced
  inner _ _ beyond found := (nothing_beyond beyond found).elim
  targets _ _ _ beyond found := (nothing_beyond beyond found).elim

theorem confines_withMark {emitter : Emitter} {label : Label} (isKnown : label ∈ known)
    (isOpen : emitter.labels[label.index]? = some none) :
    emitter.Confines known least (emitter.withMark label) where
  precedes := precedes_withMark isOpen
  regions := rfl
  pending := rfl
  labels := by simp [withMark]
  placed index position isPlaced := by
    have isPlaced : (emitter.labels.setIfInBounds label.index (some emitter.position))[index]? =
        some (some position) := isPlaced
    rw [Array.getElem?_setIfInBounds] at isPlaced
    split at isPlaced
    · next same =>
        split at isPlaced
        · cases isPlaced
          subst same
          exact .inr ⟨.inl isKnown, Nat.le_refl _, Nat.le_refl _⟩
        · cases isPlaced
    · exact .inl isPlaced
  inner _ _ beyond found := (nothing_beyond beyond found).elim
  targets _ _ _ beyond found := (nothing_beyond beyond found).elim

/-- A new local changes no code. -/
theorem confines_of_locals {type : RunTy} (emitter : Emitter) :
    emitter.Confines known least { emitter with locals := emitter.locals.push ⟨type, false⟩ } where
  precedes := by
    refine ⟨fun _ _ => id, fun _ _ => id, by simp, fun unpinned decl isDecl => ?_⟩
    rcases Array.mem_push.mp isDecl with old | rfl
    · exact unpinned decl old
    · rfl
  regions := rfl
  pending := rfl
  labels := Nat.le_refl _
  placed _ _ := .inl
  inner _ _ beyond found := (nothing_beyond beyond found).elim
  targets _ _ _ beyond found := (nothing_beyond beyond found).elim

end Emitter

/-! ## Storage -/

/-- A variable that code can assign without assigning an argument or one of the first locals. -/
def Binding.Spares (least : Nat) (binding : Binding) : Prop :=
  binding.boxed = true ∨
    match binding.place with
    | .argument _ => False
    | .localSlot slot => least ≤ slot
    | .receiverField _ => True

/-- No variable in scope is an argument or one of the first locals, other than as a cell. -/
def Scope.Spares (least : Nat) (env : Scope Binding) : Prop :=
  ∀ name binding, env.get? name = some binding → binding.Spares least

namespace Scope.Spares

variable {least : Nat} {env : Scope Binding}

theorem bind (spares : env.Spares least) {name : Name} (fits : binding.Spares least)
    : (env.bind name binding).Spares least := by
  intro other found isFound
  rw [Scope.get?_bind] at isFound
  split at isFound
  · cases isFound
    exact fits
  · exact spares other found isFound

theorem bindAll (spares : env.Spares least) {bindings : List (Name × Binding)}
    (fits : ∀ entry ∈ bindings, entry.2.Spares least) : (env.bindAll bindings).Spares least := by
  induction bindings generalizing env with
  | nil => exact spares
  | cons entry bindings ih =>
      rw [Scope.bindAll_cons]
      exact ih (spares.bind (fits entry List.mem_cons_self)) (List.forall_mem_cons.mp fits).2

theorem lookup (spares : env.Spares least) {name : Name} (found : env.lookup name = .ok binding)
    : binding.Spares least := by
  unfold Scope.lookup at found
  split at found
  · next isFound =>
      cases found
      exact spares name _ isFound
  · cases found

end Scope.Spares

/-! ## Actions -/

/-- The code that an action adds leads only to itself, to its end and to known labels, if there are
as many locals as it may not assign. -/
def Lower.Confined {α : Type} (known : List Label) (least : Nat) (action : Lower α)
    (post : α → Prop) : Prop :=
  ∀ before value after, least ≤ before.locals.size → action.Writes before value after →
    before.Confines known least after ∧ post value

namespace Lower.Confined

variable {α β γ : Type} {known : List Label} {least : Nat} {action : Lower α} {post : α → Prop}

theorem pure {value : α} (holds : post value) : Confined known least (pure value) post := by
  rintro before _ after _ written
  obtain ⟨rfl, rfl⟩ := writes_pure.mp written
  exact ⟨.refl _, holds⟩

theorem bind {next : α → Lower β} {between : α → Prop} {post : β → Prop}
    (first : Confined known least action between)
    (second : ∀ value, between value → Confined known least (next value) post) :
    Confined known least (action >>= next) post := by
  intro before result after enough written
  obtain ⟨value, middle, early, late⟩ := writes_bind.mp written
  obtain ⟨head, holds⟩ := first _ _ _ enough early
  obtain ⟨tail, done⟩ := second value holds _ _ _ (enough.trans head.precedes.locals) late
  exact ⟨head.andThen tail, done⟩

theorem andThen {next : α → Lower β} {between : α → Prop} {post : β → Prop}
    (first : Confined known least action between)
    (second : ∀ value, Confined known least (next value) post) :
    Confined known least (action >>= next) post :=
  first.bind fun value _ => second value

theorem lift {outcome : Except Diagnostic α} (holds : ∀ value, outcome = .ok value → post value) :
    Confined known least (liftM outcome) post := by
  intro before value after _ written
  obtain ⟨found, rfl⟩ := writes_lift.mp written
  exact ⟨.refl _, holds value found⟩

theorem ofImage {outcome : Except ImageError α} :
    Confined known least (Lower.ofImage outcome) fun _ => True := by
  intro before value after _ written
  obtain ⟨-, rfl⟩ := writes_ofImage.mp written
  exact ⟨.refl _, trivial⟩

theorem throw (diagnostic : Diagnostic) : Confined known least (throw diagnostic) post :=
  fun _ _ _ _ written => (writes_throw written).elim

theorem emit {instr : Instr} (inner : instr.isInner least = true)
    (targets : ∀ label ∈ instr.targets, label ∈ known) :
    Confined known least (Lower.emit instr) fun _ => True := by
  intro before _ after _ written
  obtain rfl := writes_emit.mp written
  exact ⟨before.confines_emit inner targets, trivial⟩

theorem storeLocal {slot : Nat} (beyond : least ≤ slot) :
    Confined known least (Lower.emit (.storeLocal slot)) fun _ => True :=
  emit (decide_eq_true beyond) (List.forall_mem_nil _)

theorem forM {items : List γ} {action : γ → Lower Unit}
    (each : ∀ item ∈ items, Confined known least (action item) fun _ => True) :
    Confined known least (items.forM action) fun _ => True := by
  induction items with
  | nil => exact pure trivial
  | cons item items ih =>
      exact (each item List.mem_cons_self).andThen fun _ =>
        ih (List.forall_mem_cons.mp each).2

theorem mapM {items : List γ} {action : γ → Lower α}
    (each : ∀ item, Confined known least (action item) post) :
    Confined known least (items.mapM action) fun values => ∀ value ∈ values, post value := by
  induction items with
  | nil => exact pure nofun
  | cons item items ih =>
      rw [List.mapM_cons]
      refine (each item).bind fun value holds => ih.bind fun values areGood => pure ?_
      intro other isOther
      rcases List.mem_cons.mp isOther with rfl | isOther
      · exact holds
      · exact areGood other isOther

theorem emitAll {instrs : List Instr} (inner : ∀ instr ∈ instrs, instr.isInner least = true)
    (targets : ∀ instr ∈ instrs, ∀ label ∈ instr.targets, label ∈ known) :
    Confined known least (Lower.emitAll instrs) fun _ => True :=
  forM fun instr isInstr => emit (inner instr isInstr) (targets instr isInstr)

theorem popValue (type : SourceTy) :
    Confined known least (Lower.popValue type) fun _ => True := by
  unfold Lower.popValue
  split
  · exact pure trivial
  · exact emit rfl (List.forall_mem_nil _)

theorem emitCall (method : MethodHandle) (isVirtual : Bool) :
    Confined known least (Lower.emitCall method isVirtual false) fun _ => True := by
  have calls : Confined known least
      (Lower.emit (if isVirtual then .callVirtual method false else .call method false))
      fun _ => True := by
    split
    · exact emit rfl (List.forall_mem_nil _)
    · exact emit rfl (List.forall_mem_nil _)
  exact calls.andThen fun _ => pure trivial

/-- A new label is known to what follows. -/
theorem label {next : Label → Lower β} {post : β → Prop}
    (rest : ∀ label, Confined (label :: known) least (next label) post) :
    Confined known least (Lower.label >>= next) post := by
  intro before result after enough written
  have late := writes_label_bind.mp written
  obtain ⟨tail, done⟩ := rest _ before.withLabel _ _ enough late
  refine ⟨@Emitter.Confines.trans _ _ _ _ [⟨before.labels.size⟩] _ before.confines_withLabel tail
    fun label isLabel => ?_, done⟩
  rw [List.mem_singleton.mp isLabel]
  exact ⟨Nat.le_refl _, by simp [Emitter.withLabel]⟩

theorem mono {more : List Label} (confined : Confined known least action post)
    (subset : known ⊆ more) : Confined more least action post := by
  intro before value after enough written
  obtain ⟨confines, holds⟩ := confined before value after enough written
  refine ⟨{ confines with placed := fun index position isPlaced => ?_, targets := ?_ }, holds⟩
  · exact (confines.placed index position isPlaced).imp_right fun ⟨isKnown, range⟩ =>
      ⟨isKnown.imp_left fun isKnown => subset isKnown, range⟩
  · intro position instr label beyond found isTarget
    exact (confines.targets position instr label beyond found isTarget).imp_left
      fun isKnown => subset isKnown

/-- New labels, one for each item, are known to what follows. -/
theorem labels {items : List α} {view : α → γ} {next : List (γ × Label) → Lower β} {post : β → Prop}
    (rest : ∀ targets : List (γ × Label),
      Confined (targets.map (·.2) ++ known) least (next targets) post) :
    Confined known least
      ((items.mapM fun item => do
        let label ← Lower.label
        return (view item, label)) >>= next) post := by
  induction items generalizing known next with
  | nil => exact rest []
  | cons item items ih =>
      simp only [List.mapM_cons, bind_assoc, pure_bind]
      refine label fun first => ?_
      refine @ih _ (fun targets => next ((view item, first) :: targets)) fun targets => ?_
      refine (rest ((view item, first) :: targets)).mono fun label isLabel => ?_
      simp only [List.map_cons, List.cons_append, List.mem_cons, List.mem_append] at isLabel ⊢
      tauto

theorem mark {label : Label} (isKnown : label ∈ known) :
    Confined known least (Lower.mark label) fun _ => True := by
  intro before _ after _ written
  obtain ⟨isOpen, rfl⟩ := writes_mark.mp written
  exact ⟨Emitter.confines_withMark isKnown isOpen, trivial⟩

theorem declareLocal (type : RunTy) :
    Confined known least (Lower.ofEmit (Emitter.declareLocal type false)) fun slot =>
      least ≤ slot := by
  intro before slot after enough written
  obtain ⟨-, rfl, rfl⟩ := writes_declareLocal.mp written
  exact ⟨before.confines_of_locals, enough⟩

end Lower.Confined

/-! ## Storage and members -/

namespace LowerContext

open Lower

variable (context : LowerContext) {known : List Label} {least : Nat}

theorem platformMethod_confined (owner : SourceTy) (name : Name) (isInstance : Bool)
    (params : List SourceTy) :
    Confined known least (context.platformMethod owner name isInstance params) fun _ => True :=
  (Confined.lift fun _ _ => trivial).andThen fun _ =>
    (Confined.lift fun _ _ => trivial).andThen fun _ => .ofImage

theorem platformCtor_confined (owner : SourceTy) (params : List SourceTy) :
    Confined known least (context.platformCtor owner params) fun _ => True :=
  (Confined.lift fun _ _ => trivial).andThen fun _ =>
    (Confined.lift fun _ _ => trivial).andThen fun _ => .ofImage

theorem method_confined (callee : Callee) :
    Confined known least (context.method callee) fun _ => True := by
  unfold LowerContext.method
  split
  · exact .lift fun _ _ => trivial
  · exact context.platformMethod_confined _ _ _ _

theorem ctor_confined (callee : Callee) :
    Confined known least (context.ctor callee) fun _ => True := by
  unfold LowerContext.ctor
  split
  · exact .lift fun _ _ => trivial
  · exact context.platformCtor_confined _ _

theorem field_confined (target : FieldTarget) :
    Confined known least (context.field target) fun _ => True := by
  unfold LowerContext.field
  split
  · exact .lift fun _ _ => trivial
  · exact (Confined.lift fun _ _ => trivial).andThen fun _ => .ofImage

theorem delegateInvoke_confined (delegate : SourceTy) :
    Confined known least (context.delegateInvoke delegate) fun _ => True := by
  unfold LowerContext.delegateInvoke
  split
  · exact context.platformMethod_confined _ _ _ _
  · exact .throw _

theorem declareLocal_confined (type : SourceTy) :
    Confined known least (context.declareLocal type) fun slot => least ≤ slot :=
  (Confined.lift fun _ _ => trivial).andThen fun _ => .declareLocal _

theorem storeTop_confined (type : SourceTy) :
    Confined known least (context.storeTop type) fun slot => least ≤ slot :=
  (context.declareLocal_confined type).bind fun _ beyond =>
    (Confined.storeLocal beyond).andThen fun _ => .pure beyond

theorem cellField_confined (content : SourceTy) :
    Confined known least (context.cellField content) fun _ => True :=
  (Confined.lift fun _ _ => trivial).andThen fun _ => .ofImage

theorem newCell_confined (content : SourceTy) (filled : Bool) :
    Confined known least (context.newCell content filled) (Binding.Spares least) :=
  (context.platformCtor_confined _ _).andThen fun _ => (Confined.emit rfl (List.forall_mem_nil _)).andThen fun _ =>
    (context.storeTop_confined _).andThen fun _ => .pure (.inl rfl)

theorem bindTop_confined (type : SourceTy) (boxed : Bool) :
    Confined known least (context.bindTop type boxed) (Binding.Spares least) := by
  unfold LowerContext.bindTop
  split
  · exact context.newCell_confined _ _
  · exact (context.storeTop_confined _).bind fun _ beyond => .pure (.inr beyond)

theorem bindFresh_confined (type : SourceTy) (boxed : Bool) :
    Confined known least (context.bindFresh type boxed) (Binding.Spares least) := by
  unfold LowerContext.bindFresh
  split
  · exact context.newCell_confined _ _
  · exact (context.declareLocal_confined _).bind fun _ beyond => .pure (.inr beyond)

theorem load_confined (place : Place) : Confined known least place.load fun _ => True := by
  cases place with
  | argument slot => exact .emit rfl (List.forall_mem_nil _)
  | localSlot slot => exact .emit rfl (List.forall_mem_nil _)
  | receiverField field => exact .emitAll (by simp [Instr.isInner]) (by simp [Instr.targets])

theorem fetch_confined (binding : Binding) :
    Confined known least (context.fetch binding) fun _ => True := by
  refine (load_confined binding.place).andThen fun _ => ?_
  split
  · exact (context.cellField_confined _).andThen fun _ => .emit rfl (List.forall_mem_nil _)
  · exact .pure trivial

theorem store_confined (spares : binding.Spares least) {value : Lower Unit}
    (pushes : Confined known least value fun _ => True) :
    Confined known least (context.store binding value) fun _ => True := by
  unfold LowerContext.store
  split
  · exact (load_confined _).andThen fun _ => pushes.andThen fun _ =>
      (context.cellField_confined _).andThen fun _ => .emit rfl (List.forall_mem_nil _)
  · next unboxed =>
      have kept := spares.resolve_left unboxed
      unfold Place.store
      cases isPlace : binding.place with
      | argument slot =>
          rw [isPlace] at kept
          exact kept.elim
      | localSlot slot =>
          rw [isPlace] at kept
          exact pushes.andThen fun _ => .storeLocal kept
      | receiverField field =>
          exact (Confined.emit rfl (List.forall_mem_nil _)).andThen fun _ => pushes.andThen fun _ => .emit rfl (List.forall_mem_nil _)

theorem fetchCells_confined (env : Scope Binding) (captures : List Param) :
    Confined known least (env.fetchCells captures) fun _ => True := by
  refine .forM fun capture _ => (Confined.lift fun _ _ => trivial).andThen fun binding => ?_
  unfold Binding.fetchCell
  split
  · exact load_confined _
  · exact .throw _

theorem lowerAction_confined {action : Action} (operates : action.Operates) :
    Confined known least (context.lowerAction action) fun _ => True := by
  cases action with
  | code instrs =>
      refine .emitAll (fun instr isInstr => Instr.isInner_of_isOperation (operates instr isInstr) _)
        fun instr isInstr label isTarget => ?_
      rw [Instr.targets_of_isOperation (operates instr isInstr)] at isTarget
      cases isTarget
  | routine owner name params =>
      exact (context.platformMethod_confined _ _ _ _).andThen fun _ => .emit rfl (List.forall_mem_nil _)
  | onType action type =>
      refine (Confined.lift fun _ _ => trivial).andThen fun type => ?_
      cases action <;> exact .emitAll (by simp [TypeAction.code, Instr.isInner])
        (by simp [TypeAction.code, Instr.targets])

theorem lowerClosure_confined (closure : Closure) (env : Scope Binding) :
    Confined known least (context.lowerClosure closure env) fun _ => True :=
  (fetchCells_confined env _).andThen fun _ => (Confined.lift fun _ _ => trivial).andThen fun _ =>
    (Confined.emit rfl (List.forall_mem_nil _)).andThen fun _ => (Confined.lift fun _ _ => trivial).andThen fun _ =>
      (Confined.emit rfl (List.forall_mem_nil _)).andThen fun _ =>
        (context.platformCtor_confined _ _).andThen fun _ => .emit rfl (List.forall_mem_nil _)

theorem lowerBlockCall_confined (block : Option Block) (captures : List Param)
    {arrays : Lower Unit} (pushes : Confined known least arrays fun _ => True)
    (env : Scope Binding) :
    Confined known least (context.lowerBlockCall block captures arrays env) fun _ => True := by
  refine (fetchCells_confined env _).andThen fun _ => pushes.andThen fun _ => ?_
  split
  · exact (Confined.lift fun _ _ => trivial).andThen fun _ => .emit rfl (List.forall_mem_nil _)
  · exact .pure trivial

theorem lowerMember_confined (use : MemberUse) {operands : Lower Unit}
    (pushes : Confined known least operands fun _ => True) :
    Confined known least (context.lowerMember use operands false) fun _ => True := by
  cases use with
  | loadField target =>
      refine (context.field_confined target).andThen fun _ => pushes.andThen fun _ => ?_
      split
      · exact .emit rfl (List.forall_mem_nil _)
      · exact .emit rfl (List.forall_mem_nil _)
  | storeField target =>
      refine (context.field_confined target).andThen fun _ => pushes.andThen fun _ => ?_
      split
      · exact .emit rfl (List.forall_mem_nil _)
      · exact .emit rfl (List.forall_mem_nil _)
  | call callee =>
      exact (context.method_confined callee).andThen fun _ => pushes.andThen fun _ => .emitCall _ _
  | write callee =>
      exact (context.method_confined callee).andThen fun _ => pushes.andThen fun _ => .emitCall _ _
  | new callee =>
      exact (context.ctor_confined callee).andThen fun _ => pushes.andThen fun _ => .emit rfl (List.forall_mem_nil _)

theorem lowerLoopCall_confined (closure : Closure) (function : Binder) (slots : List Nat)
    (env : Scope Binding) :
    Confined known least (context.lowerLoopCall closure function slots env false) fun _ => True :=
  (context.bindFresh_confined _ _).bind fun _ spares =>
    (context.store_confined spares (context.lowerClosure_confined _ _)).andThen fun _ =>
      (context.fetch_confined _).andThen fun _ =>
        (Confined.forM fun _ _ => .emit rfl (List.forall_mem_nil _)).andThen fun _ =>
          (context.delegateInvoke_confined _).andThen fun _ => .emitCall _ _

end LowerContext

/-! ## Expressions -/

namespace Core

open Lower

variable {context : LowerContext} {env : Scope Binding} {known : List Label} {least : Nat}
variable {clauses : List (Binder × Core)}
variable {items : List Core}

/-- The code of an expression is confined, whatever the scope is. -/
def IsConfined (context : LowerContext) (least : Nat) (core : Core) : Prop :=
  ∀ known env, env.Spares least → Confined known least (core.lower context env false) fun _ => True

section

variable (each : ∀ item ∈ items, item.IsConfined context least)
include each

theorem lowerAll_confined (spares : env.Spares least) :
    Confined known least (lowerAll context items env) fun _ => True := by
  induction items with
  | nil => exact .pure trivial
  | cons item items ih =>
      exact (each item List.mem_cons_self known env spares).andThen fun _ =>
        ih (List.forall_mem_cons.mp each).2

theorem lowerSeq_confined (spares : env.Spares least) :
    Confined known least (lowerSeq context items env false) fun _ => True := by
  induction items with
  | nil => exact .pure trivial
  | cons item items ih =>
      cases items with
      | nil => exact each item List.mem_cons_self known env spares
      | cons next items =>
          exact (each item List.mem_cons_self known env spares).andThen fun _ =>
            (Confined.popValue _).andThen fun _ =>
              ih (List.forall_mem_cons.mp each).2

theorem lowerLogic_confined {connective : Connective} {stop : Label} (spares : env.Spares least)
    (isKnown : stop ∈ known) :
    Confined known least (lowerLogic context items connective stop env) fun _ => True := by
  induction items with
  | nil => exact .pure trivial
  | cons item items ih =>
      cases items with
      | nil => exact each item List.mem_cons_self known env spares
      | cons next items =>
          refine (each item List.mem_cons_self known env spares).andThen fun _ =>
            (Confined.emitAll ?_ ?_).andThen fun _ =>
              ih (List.forall_mem_cons.mp each).2
          · cases connective <;> simp [Connective.exit, Instr.isInner]
          · cases connective <;> simp [Connective.exit, Instr.targets, isKnown]

end

theorem lowerArms_confined {arms : List (List UInt32 × Core)} {labels : List Label} {stop : Label}
    (each : ∀ arm ∈ arms.map (·.2), arm.IsConfined context least) (spares : env.Spares least)
    (areKnown : labels ⊆ known) (isKnown : stop ∈ known) :
    Confined known least (lowerArms context arms labels stop env false) fun _ => True := by
  induction arms generalizing labels with
  | nil => exact .pure trivial
  | cons arm arms ih =>
      obtain ⟨values, arm⟩ := arm
      cases labels with
      | nil => exact .pure trivial
      | cons label labels =>
          refine (Confined.mark (areKnown List.mem_cons_self)).andThen fun _ =>
            (each arm List.mem_cons_self known env spares).andThen fun _ =>
              (Confined.emit rfl ?_).andThen fun _ => ?_
          · simpa [Instr.targets] using isKnown
          · exact ih (List.forall_mem_cons.mp each).2
              (List.subset_of_cons_subset areKnown)

section

variable (each : ∀ init ∈ clauses.map (·.2), init.IsConfined context least)
include each

theorem lowerNamed_confined (spares : env.Spares least) :
    Confined known least (lowerNamed context clauses env) fun bindings =>
      ∀ entry ∈ bindings, entry.2.Spares least := by
  induction clauses with
  | nil => exact .pure nofun
  | cons clause clauses ih =>
      obtain ⟨binder, init⟩ := clause
      refine (each init List.mem_cons_self known env spares).andThen fun _ =>
        (context.bindTop_confined _ _).bind fun binding fits =>
          (ih (List.forall_mem_cons.mp each).2).bind
            fun bindings fitting => .pure fun entry isEntry => ?_
      rcases List.mem_cons.mp isEntry with rfl | isEntry
      · exact fits
      · exact fitting entry isEntry

theorem lowerClauses_confined (spares : env.Spares least) :
    Confined known least (lowerClauses context clauses env) (Scope.Spares least) := by
  induction clauses generalizing env with
  | nil => exact .pure spares
  | cons clause clauses ih =>
      obtain ⟨binder, init⟩ := clause
      exact (each init List.mem_cons_self known env spares).andThen fun _ =>
        (context.bindTop_confined _ _).bind fun _ fits =>
          ih (List.forall_mem_cons.mp each).2 (spares.bind fits)

theorem lowerStores_confined (spares : env.Spares least) :
    Confined known least (lowerStores context clauses env) fun _ => True := by
  induction clauses with
  | nil => exact .pure trivial
  | cons clause clauses ih =>
      obtain ⟨binder, init⟩ := clause
      exact (Confined.lift fun _ => spares.lookup).bind
        fun _ fits => (context.store_confined fits
          (each init List.mem_cons_self known env spares)).andThen fun _ =>
            ih (List.forall_mem_cons.mp each).2

end

theorem lowerTemps_confined {vars : List (Binder × Core)}
    (each : ∀ init ∈ vars.map (·.2), init.IsConfined context least)
    (spares : env.Spares least) :
    Confined known least (lowerTemps context vars env) fun _ => True := by
  induction vars with
  | nil => exact .pure trivial
  | cons var vars ih =>
      obtain ⟨binder, init⟩ := var
      exact (each init List.mem_cons_self known env spares).andThen fun _ =>
        (context.storeTop_confined _).andThen fun _ =>
          (ih (List.forall_mem_cons.mp each).2).andThen fun _ =>
            .pure trivial

theorem freshBindings_confined (clauses : List (Binder × Core)) :
    Confined known least (clauses.mapM fun (binder, _) => do
      let binding ← context.bindFresh binder.type binder.captured
      return (binder.name, binding)) fun bindings => ∀ entry ∈ bindings, entry.2.Spares least :=
  .mapM fun _ => (context.bindFresh_confined _ _).bind fun _ fits => .pure fits

/-- The code of an expression leads only to itself and to its end. -/
theorem isConfined (core : Core) (operates : ∀ node ∈ core.preorder, node.Operates) :
    core.IsConfined context least := by
  induction core using partInduction with
  | step core ih =>
      have each : ∀ part ∈ core.parts, part.IsConfined context least := fun part isPart =>
        ih part isPart fun node isNode => operates node (mem_preorder_of_mem_parts isPart isNode)
      have operands : ∀ part ∈ core.operands, part.IsConfined context least :=
        fun part isOperand => each part (core.operands_subset isOperand)
      have own := operates core core.mem_preorder_self
      clear ih operates
      intro known env spares
      cases core with
      | literal value =>
          refine .emitAll (fun instr isInstr => ?_) fun instr isInstr label isTarget => ?_
          · exact Instr.isInner_of_isOperation (value.code_isOperation instr isInstr) least
          · rw [Instr.targets_of_isOperation (value.code_isOperation instr isInstr)] at isTarget
            cases isTarget
      | var name type =>
          exact (Confined.lift fun _ _ => trivial).andThen fun _ => context.fetch_confined _
      | set name value =>
          exact (Confined.lift fun _ => spares.lookup).bind
            fun _ fits => context.store_confined fits
              (operands value List.mem_cons_self known env spares)
      | seq items => exact lowerSeq_confined each spares
      | logic connective items =>
          unfold lower
          split
          · exact .emit rfl (List.forall_mem_nil _)
          · exact .label fun _ =>
              (lowerLogic_confined operands spares List.mem_cons_self).andThen fun _ =>
                .mark List.mem_cons_self
      | when test body =>
          exact .label fun _ => (operands test List.mem_cons_self _ env spares).andThen fun _ =>
            (Confined.emit rfl (by simp [Instr.targets])).andThen fun _ =>
              (each body (by simp [parts, inPlace]) _ env spares).andThen fun _ =>
                .mark List.mem_cons_self
      | cond test yes no =>
          exact .label fun _ => (operands test List.mem_cons_self _ env spares).andThen fun _ =>
            .label fun _ => (Confined.emit rfl (by simp [Instr.targets])).andThen fun _ =>
              (each yes (by simp [parts, inPlace]) _ env spares).andThen fun _ =>
                (Confined.emit rfl (by simp [Instr.targets])).andThen fun _ =>
                  (Confined.mark (by simp)).andThen fun _ =>
                    (each no (by simp [parts, inPlace]) _ env spares).andThen fun _ =>
                      .mark (by simp)
      | «while» test body =>
          exact .label fun _ => .label fun _ => (Confined.mark (by simp)).andThen fun _ =>
            (operands test List.mem_cons_self _ env spares).andThen fun _ =>
              (Confined.emit rfl (by simp [Instr.targets])).andThen fun _ =>
                (each body (by simp [parts, inPlace]) _ env spares).andThen fun _ =>
                  (Confined.popValue _).andThen fun _ =>
                    (Confined.emit rfl (by simp [Instr.targets])).andThen fun _ =>
                      .mark (by simp)
      | switch selector arms default =>
          have isDefault : default ∈ (switch selector arms default).parts := by
            simp [parts, inPlace]
          unfold lower
          refine (operands selector List.mem_cons_self known env spares).andThen fun _ => ?_
          split
          · exact (Confined.emit rfl (List.forall_mem_nil _)).andThen fun _ => each default isDefault known env spares
          · refine .label fun otherwise => .label fun stop => .labels fun targets => ?_
            have areKnown : targets.map (·.2) ⊆ targets.map (·.2) ++ stop :: otherwise :: known :=
              List.subset_append_left _ _
            refine (Confined.emit rfl fun label isTarget => ?_).andThen fun _ =>
              (Confined.emit rfl (by simp [Instr.targets])).andThen fun _ =>
                (lowerArms_confined (fun arm isArm => each arm ?_) spares areKnown
                  (by simp)).andThen fun _ => (Confined.mark (by simp)).andThen fun _ =>
                    (each default isDefault _ env spares).andThen fun _ => .mark (by simp)
            · rcases mem_jumpTable isTarget with rfl | isArm
              · simp
              · exact areKnown isArm
            · exact branches_subset (switch selector arms default) isArm
      | letPar clauses body =>
          exact (lowerNamed_confined operands spares).bind fun _ fitting =>
            each body (by simp [parts]) _ _ (spares.bindAll fitting)
      | letSeq clauses body =>
          exact (lowerClauses_confined operands spares).bind fun _ fitting =>
            each body (by simp [parts]) _ _ fitting
      | letRec clauses body =>
          exact (freshBindings_confined clauses).bind fun _ fitting =>
            (lowerStores_confined operands (spares.bindAll fitting)).andThen fun _ =>
              each body (by simp [parts]) _ _ (spares.bindAll fitting)
      | loop id function vars result captures body =>
          exact (lowerTemps_confined operands spares).andThen fun _ =>
            context.lowerLoopCall_confined _ _ _ _
      | lambda id params captures body => exact context.lowerClosure_confined _ _
      | invoke type function args =>
          exact (operands function List.mem_cons_self known env spares).andThen fun _ =>
            (lowerAll_confined (List.forall_mem_cons.mp operands).2
              spares).andThen fun _ => (context.delegateInvoke_confined _).andThen fun _ =>
                .emitCall _ _
      | apply type action args =>
          exact (lowerAll_confined operands spares).andThen fun _ =>
            context.lowerAction_confined own
      | member type use args =>
          exact context.lowerMember_confined _ (lowerAll_confined operands spares)
      | tryCatch id captures body catches =>
          exact context.lowerBlockCall_confined _ _ (.pure trivial) _
      | tryFinally id captures body catches final =>
          exact context.lowerBlockCall_confined _ _ (.pure trivial) _
      | pin id captures arrays body =>
          rw [lower, lowerArrays_eq_lowerAll]
          exact context.lowerBlockCall_confined _ _ (lowerAll_confined operands spares) _

end Core

end ClassForge
