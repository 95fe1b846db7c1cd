import ClassForge.Lower.Bodies
import ClassForge.Proofs.Image.ImageGrowth
import ClassForge.Proofs.Typing.Descent

/-!
# Depths of the evaluation stack

Every position of a code body has a depth of the evaluation stack if the depths agree with
all the ways that control can go: from an instruction to the next one, along branches, and
into the handlers of exception blocks.  `Body.Balanced` says that some depths do, for the
effects that instructions have on the stack of a given image.

Code is generated piece by piece, and a ledger keeps the depths while it is.  Every operation
of an emitter leaves a ledger that agrees with the code, if the one before it does.
-/

namespace ClassForge

variable {depth : Nat → Nat} {position : Nat}

/-- Number of values that an expression of a type leaves on the stack. -/
def Ty.weight {κ : Type} (type : Ty κ) : Nat :=
  if type.isVoid then 0 else 1

/-! ## Instructions -/

/-- How many values an instruction takes off the stack, and how many it puts there. -/
structure StackEffect where
  takes : Nat
  gives : Nat
  deriving DecidableEq

namespace Instr

variable {instr : Instr}
variable {reaches : Label → Nat → Prop}

/-- The effect of an instruction.  Calls go by the entry of the member that they name. -/
def effect? (image : Image) : Instr → Option StackEffect
  | nop | ret | branch _ | leave _ | endFinally => some ⟨0, 0⟩
  | pop | storeArg _ | storeLocal _ | storeStatic _ | branchTrue _ | branchFalse _ | switch _
  | throw => some ⟨1, 0⟩
  | dup => some ⟨1, 2⟩
  | const _ | loadArg _ | loadLocal _ | loadStatic _ | loadFunction _ => some ⟨0, 1⟩
  | loadField _ | neg | not | convert _ | newArray _ | arrayLength | loadIndirect _ | box _
  | unbox _ | castClass _ | isInstance _ => some ⟨1, 1⟩
  | arith _ | compare _ | loadElement _ | elementAddress _ => some ⟨2, 1⟩
  | storeField _ | storeIndirect _ => some ⟨2, 0⟩
  | storeElement _ | copyBlock | fillBlock => some ⟨3, 0⟩
  | call method _ | callVirtual method _ => (image.method? method).map fun info =>
      ⟨info.params.length + (!info.attrs.isStatic).toNat, info.ret.weight⟩
  | newObject ctor => (image.ctor? ctor).map fun info => ⟨info.params.length, 1⟩
  | callCtor ctor => (image.ctor? ctor).map fun info => ⟨info.params.length + 1, 0⟩

/-- Whether control can go on to the next instruction in the same frame. -/
def fallsThrough : Instr → Bool
  | ret | branch _ | leave _ | endFinally | throw => false
  | call _ tail | callVirtual _ tail => !tail
  | _ => true

/-- Whether an instruction ends its frame with the result of a call. -/
def isTailCall : Instr → Bool
  | call _ tail | callVirtual _ tail => tail
  | _ => false

theorem isTailCall_of_fallsThrough (goesOn : instr.fallsThrough = true) :
    instr.isTailCall = false := by
  cases instr <;> simp_all [fallsThrough, isTailCall]

/-- The depth at the targets of an instruction.  Leaving an exception block empties the
stack. -/
def targetDepth : Instr → (rest : Nat) → Nat
  | leave _, _ => 0
  | _, rest => rest

/-- The depths around an instruction agree with its effect: there are enough values for it,
the next instruction and the targets have the depth that is left, a member that returns has
as many values as its result takes, and a tail call takes all values and gives the result. -/
def Flows (image : Image) (result : Nat) (depth : Nat → Nat) (reaches : Label → Nat → Prop)
    (position : Nat) (instr : Instr) : Prop :=
  ∃ effect, instr.effect? image = some effect ∧ effect.takes ≤ depth position ∧
    (instr.fallsThrough = true →
      depth (position + 1) = depth position - effect.takes + effect.gives) ∧
    (∀ label ∈ instr.targets, reaches label (instr.targetDepth (depth position - effect.takes))) ∧
    (instr = .ret → depth position = result) ∧
    (instr.isTailCall = true → effect.takes = depth position ∧ effect.gives = result)

theorem Flows.mono {image : Image} {result : Nat} {later : Nat → Nat} {further : Label → Nat → Prop}
    (flows : instr.Flows image result depth reaches position)
    (same : later position = depth position) (next : later (position + 1) = depth (position + 1))
    (implies : ∀ label depth, reaches label depth → further label depth) :
    instr.Flows image result later further position := by
  obtain ⟨effect, isEffect, enough, falls, targets, returns, ends⟩ := flows
  refine ⟨effect, isEffect, ?_, ?_, ?_, ?_, ?_⟩
  · rwa [same]
  · rwa [same, next]
  · intro label isTarget
    rw [same]
    exact implies _ _ (targets label isTarget)
  · rwa [same]
  · rwa [same]

/-- Members keep their signatures when an image grows, so instructions keep their effects. -/
theorem effect?_of_extends {image extended : Image} (growth : image.Extends extended)
    {effect : StackEffect} (isEffect : instr.effect? image = some effect) :
    instr.effect? extended = some effect := by
  have ofMethod : ∀ {method : MethodHandle} {measure : MethodInfo → StackEffect},
      (∀ before after : MethodInfo, before.Grows after → measure after = measure before) →
      (image.method? method).map measure = some effect →
      (extended.method? method).map measure = some effect := by
    intro method measure stays found
    obtain ⟨info, isInfo, rfl⟩ := Option.map_eq_some_iff.mp found
    obtain ⟨later, isLater, grows⟩ := growth.methods _ info isInfo
    exact Option.map_eq_some_iff.mpr ⟨later, isLater, stays info later grows⟩
  have ofCtor : ∀ {ctor : CtorHandle} {measure : CtorInfo → StackEffect},
      (∀ before after : CtorInfo, before.Grows after → measure after = measure before) →
      (image.ctor? ctor).map measure = some effect →
      (extended.ctor? ctor).map measure = some effect := by
    intro ctor measure stays found
    obtain ⟨info, isInfo, rfl⟩ := Option.map_eq_some_iff.mp found
    obtain ⟨later, isLater, grows⟩ := growth.ctors _ info isInfo
    exact Option.map_eq_some_iff.mpr ⟨later, isLater, stays info later grows⟩
  cases instr with
  | call | callVirtual =>
      exact ofMethod (fun _ _ grows => by rw [grows.params, grows.attrs, grows.ret]) isEffect
  | newObject | callCtor => exact ofCtor (fun _ _ grows => by rw [grows.params]) isEffect
  | _ => exact isEffect

theorem Flows.of_extends {image extended : Image} (growth : image.Extends extended) {result : Nat}
    (flows : instr.Flows image result depth reaches position) :
    instr.Flows extended result depth reaches position := by
  obtain ⟨effect, isEffect, rest⟩ := flows
  exact ⟨effect, effect?_of_extends growth isEffect, rest⟩

/-- The depth after code without branches, if there are enough values for it. -/
def depthAfter? (image : Image) : List Instr → (depth : Nat) → Option Nat
  | [], depth => some depth
  | instr :: instrs, depth => do
      let effect ← instr.effect? image
      if effect.takes ≤ depth ∧ instr.targets = [] ∧ instr.fallsThrough = true then
        depthAfter? image instrs (depth - effect.takes + effect.gives)
      else
        none

end Instr

namespace Image

/-- A method takes so many values, the receiver included, and gives so many. -/
def Calls (image : Image) (takes gives : Nat) (method : MethodHandle) : Prop :=
  ∃ info, image.method? method = some info ∧
    info.params.length + (!info.attrs.isStatic).toNat = takes ∧ info.ret.weight = gives

/-- A constructor takes so many values. -/
def Constructs (image : Image) (takes : Nat) (ctor : CtorHandle) : Prop :=
  ∃ info, image.ctor? ctor = some info ∧ info.params.length = takes

end Image

/-! ## Bodies -/

/-- The depth at which a handler is entered: a caught exception is on the stack. -/
def HandlerKind.entryDepth : HandlerKind → Nat
  | catching _ => 1
  | final => 0

/-- A label of a body stands for a position in it that has a depth. -/
def Body.Reaches (body : Body) (depth : Nat → Nat) (label : Label) (expected : Nat) : Prop :=
  ∃ target, body.target? label = some target ∧ target < body.instrs.size ∧
    depth target = expected

/-- Depths for the positions of a body agree with every way that control can go, and no way
leads out of the body. -/
structure Body.Balanced (image : Image) (result : Nat) (body : Body) (depth : Nat → Nat) :
    Prop where
  entry : 0 < body.instrs.size ∧ depth 0 = 0
  flows : ∀ (position : Nat) (instr : Instr), body.instrs[position]? = some instr →
    instr.Flows image result depth (body.Reaches depth) position
  inside : ∀ (position : Nat) (instr : Instr), body.instrs[position]? = some instr →
    instr.fallsThrough = true → position + 1 < body.instrs.size
  handlers : ∀ region ∈ body.regions, ∀ handler ∈ region.handlers,
    handler.start < body.instrs.size ∧ depth handler.start = handler.kind.entryDepth

theorem Body.Balanced.of_extends {image extended : Image} (growth : image.Extends extended)
    {result : Nat} {body : Body} (balanced : body.Balanced image result depth)
    : body.Balanced extended result depth :=
  { balanced with
    flows := fun position instr isInstr => (balanced.flows position instr isInstr).of_extends growth }

/-! ## Code under construction -/

/-- The depths at positions and at labels while code is generated. -/
structure Ledger where
  depth : Nat → Nat
  label : Nat → Nat

namespace Emitter

variable {region : OpenRegion} {emitter extended : Emitter}
variable {label : Label} {closed : OpenRegion}

/-- A label was given out, for a position of a certain depth. -/
def Reaches (emitter : Emitter) (ledger : Ledger) (label : Label) (expected : Nat) : Prop :=
  label.index < emitter.labels.size ∧ ledger.label label.index = expected

/-- A handler starts at a position of the right depth. -/
def Enters (emitter : Emitter) (ledger : Ledger) (kind : HandlerKind) (start : Nat) : Prop :=
  start ≤ emitter.position ∧ ledger.depth start = kind.entryDepth

/-- The handlers of an open region start at the right depths. -/
structure BalancedRegion (emitter : Emitter) (ledger : Ledger) (region : OpenRegion) : Prop where
  stop : emitter.Reaches ledger region.stop 0
  handlers : ∀ handler ∈ region.handlers, emitter.Enters ledger handler.kind handler.start
  current : ∀ block ∈ region.current, emitter.Enters ledger block.1 block.2

/-- The depths in a ledger agree with the code so far. -/
structure Balanced (image : Image) (result : Nat) (emitter : Emitter) (ledger : Ledger) :
    Prop where
  entry : ledger.depth 0 = 0
  flows : ∀ (position : Nat) (instr : Instr), emitter.instrs[position]? = some instr →
    instr.Flows image result ledger.depth (emitter.Reaches ledger) position
  marked : ∀ index position : Nat, emitter.labels[index]? = some (some position) →
    position ≤ emitter.position ∧ ledger.depth position = ledger.label index
  regions : ∀ region ∈ emitter.regions, ∀ handler ∈ region.handlers,
    emitter.Enters ledger handler.kind handler.start
  pending : ∀ region ∈ emitter.pending, emitter.BalancedRegion ledger region

/-- More code, with a ledger that has the same depths for the code before. -/
structure Continues (before : Emitter) (ledger : Ledger) (after : Emitter) (later : Ledger) :
    Prop where
  position : before.position ≤ after.position
  labels : before.labels.size ≤ after.labels.size
  depth : ∀ position ≤ before.position, later.depth position = ledger.depth position
  label : ∀ index < before.labels.size, later.label index = ledger.label index

variable {image : Image} {result : Nat} {before middle after : Emitter}
variable {ledger between later : Ledger}

theorem Continues.refl (emitter : Emitter) (ledger : Ledger) :
    emitter.Continues ledger emitter ledger :=
  ⟨Nat.le_refl _, Nat.le_refl _, fun _ _ => rfl, fun _ _ => rfl⟩

theorem Continues.trans (first : before.Continues ledger middle between)
    (second : middle.Continues between after later) : before.Continues ledger after later where
  position := Nat.le_trans first.position second.position
  labels := Nat.le_trans first.labels second.labels
  depth position within :=
    (second.depth position (Nat.le_trans within first.position)).trans (first.depth position within)
  label index within :=
    (second.label index (Nat.lt_of_lt_of_le within first.labels)).trans (first.label index within)

section

variable (continues : before.Continues ledger after later)
include continues

theorem Continues.reaches {depth : Nat} (reaches : before.Reaches ledger label depth) :
    after.Reaches later label depth :=
  ⟨Nat.lt_of_lt_of_le reaches.1 continues.labels,
    (continues.label _ reaches.1).trans reaches.2⟩

theorem Continues.enters {kind : HandlerKind} {start : Nat}
    (enters : before.Enters ledger kind start) : after.Enters later kind start :=
  ⟨Nat.le_trans enters.1 continues.position, (continues.depth _ enters.1).trans enters.2⟩

theorem Continues.balancedRegion (balanced : before.BalancedRegion ledger region) :
    after.BalancedRegion later region where
  stop := continues.reaches balanced.stop
  handlers handler isHandler := continues.enters (balanced.handlers handler isHandler)
  current block isCurrent := continues.enters (balanced.current block isCurrent)

/-- An instruction that is there flows as before. -/
theorem Continues.flows {instr : Instr}
    (flows : instr.Flows image result ledger.depth (before.Reaches ledger) position)
    (within : position < before.position) :
    instr.Flows image result later.depth (after.Reaches later) position :=
  flows.mono (continues.depth _ (Nat.le_of_lt within)) (continues.depth _ within)
    fun _ _ => continues.reaches

end

/-- A ledger with the depth after the next instruction. -/
def noted (emitter : Emitter) (ledger : Ledger) (depth : Nat) : Ledger :=
  { ledger with depth := Function.update ledger.depth (emitter.position + 1) depth }

theorem position_emit (emitter : Emitter) (instr : Instr) :
    (emitter.emit instr).position = emitter.position + 1 := by
  simp [emit, position]

theorem continues_emit (emitter : Emitter) (ledger : Ledger) (instr : Instr) (depth : Nat) :
    emitter.Continues ledger (emitter.emit instr) (emitter.noted ledger depth) where
  position := by simp [position_emit]
  labels := Nat.le_refl _
  depth position within := Function.update_of_ne (by omega) _ _
  label _ _ := rfl

theorem depth_noted (emitter : Emitter) (ledger : Ledger) (instr : Instr) (depth : Nat) :
    (emitter.noted ledger depth).depth (emitter.emit instr).position = depth := by
  rw [position_emit]
  exact Function.update_self ..

/-- Appending an instruction that flows to the depth after it. -/
theorem Balanced.emit (balanced : emitter.Balanced image result ledger) {instr : Instr}
    {depth : Nat}
    (flows : instr.Flows image result (emitter.noted ledger depth).depth (emitter.Reaches ledger)
      emitter.position) :
    (emitter.emit instr).Balanced image result (emitter.noted ledger depth) := by
  have continues := emitter.continues_emit ledger instr depth
  refine ⟨?_, ?_, ?_, ?_, ?_⟩
  · exact (continues.depth 0 (Nat.zero_le _)).trans balanced.entry
  · intro position other isOther
    rw [Emitter.emit, Array.getElem?_push] at isOther
    split at isOther
    · rename_i last
      cases isOther
      subst last
      exact flows
    · obtain ⟨within, -⟩ := Array.getElem?_eq_some_iff.mp isOther
      exact continues.flows (balanced.flows position other isOther) within
  · intro index position isMarked
    obtain ⟨within, same⟩ := balanced.marked index position isMarked
    exact ⟨Nat.le_trans within continues.position, (continues.depth _ within).trans same⟩
  · exact fun region isRegion handler isHandler =>
      continues.enters (balanced.regions region isRegion handler isHandler)
  · exact fun region isRegion => continues.balancedRegion (balanced.pending region isRegion)

/-- Code with one more label. -/
def withLabel (emitter : Emitter) : Emitter :=
  { emitter with labels := emitter.labels.push none }

/-- A ledger that keeps the next label for a depth. -/
def keeping (emitter : Emitter) (ledger : Ledger) (depth : Nat) : Ledger :=
  { ledger with label := Function.update ledger.label emitter.labels.size depth }

theorem continues_withLabel (emitter : Emitter) (ledger : Ledger) (depth : Nat) :
    emitter.Continues ledger emitter.withLabel (emitter.keeping ledger depth) where
  position := Nat.le_refl _
  labels := by simp [withLabel]
  depth _ _ := rfl
  label index within := Function.update_of_ne (Nat.ne_of_lt within) _ _

theorem reaches_withLabel (emitter : Emitter) (ledger : Ledger) (depth : Nat) :
    emitter.withLabel.Reaches (emitter.keeping ledger depth) ⟨emitter.labels.size⟩ depth :=
  ⟨by simp [withLabel], Function.update_self ..⟩

theorem Balanced.withLabel (balanced : emitter.Balanced image result ledger) (depth : Nat) :
    emitter.withLabel.Balanced image result (emitter.keeping ledger depth) := by
  have continues := emitter.continues_withLabel ledger depth
  refine ⟨balanced.entry, ?_, ?_, balanced.regions, ?_⟩
  · intro position instr isInstr
    obtain ⟨within, -⟩ := Array.getElem?_eq_some_iff.mp isInstr
    exact continues.flows (balanced.flows position instr isInstr) within
  · intro index position isMarked
    rw [Emitter.withLabel, Array.getElem?_push] at isMarked
    split at isMarked
    · cases isMarked
    · obtain ⟨within, same⟩ := balanced.marked index position isMarked
      obtain ⟨inBounds, -⟩ := Array.getElem?_eq_some_iff.mp isMarked
      exact ⟨within, same.trans (continues.label index inBounds).symm⟩
  · exact fun region isRegion => continues.balancedRegion (balanced.pending region isRegion)

/-! ### Operations that may be refused -/

theorem bind_eq_ok {α β : Type} {action : Emit α} {next : α → Emit β} {value : β} :
    (action >>= next).run emitter = .ok value extended ↔
      ∃ early middle, action.run emitter = .ok early middle ∧
        (next early).run middle = .ok value extended := by
  rw [EStateM.run_bind]
  cases action.run emitter <;> simp

/-- Code with a label put at the current position. -/
def withMark (emitter : Emitter) (label : Label) : Emitter :=
  { emitter with
    labels := emitter.labels.setIfInBounds label.index (some emitter.position) }

theorem markLabel_eq_ok :
    (markLabel label).run emitter = .ok () extended ↔
      emitter.labels[label.index]? = some none ∧ extended = emitter.withMark label := by
  unfold markLabel
  rw [bind_eq_ok]
  constructor
  · rintro ⟨_, _, ⟨⟩, ran⟩
    split at ran
    · rename_i isOpen
      cases ran
      exact ⟨isOpen, rfl⟩
    · cases ran
    · cases ran
  · rintro ⟨isOpen, rfl⟩
    refine ⟨emitter, emitter, rfl, ?_⟩
    rw [isOpen]
    rfl

theorem continues_withMark (emitter : Emitter) (ledger : Ledger) (label : Label) :
    emitter.Continues ledger (emitter.withMark label) ledger :=
  ⟨Nat.le_refl _, by simp [withMark], fun _ _ => rfl, fun _ _ => rfl⟩

theorem Balanced.withMark (balanced : emitter.Balanced image result ledger)
    (isDepth : ledger.depth emitter.position = ledger.label label.index) :
    (emitter.withMark label).Balanced image result ledger := by
  have continues := emitter.continues_withMark ledger label
  refine ⟨balanced.entry, ?_, ?_, balanced.regions, ?_⟩
  · intro position instr isInstr
    obtain ⟨within, -⟩ := Array.getElem?_eq_some_iff.mp isInstr
    exact continues.flows (balanced.flows position instr isInstr) within
  · intro index position isMarked
    rw [Emitter.withMark, Array.getElem?_setIfInBounds] at isMarked
    split at isMarked
    · rename_i same
      subst same
      split at isMarked
      · cases isMarked
        exact ⟨Nat.le_refl _, isDepth⟩
      · cases isMarked
    · exact balanced.marked index position isMarked
  · exact fun region isRegion => continues.balancedRegion (balanced.pending region isRegion)

/-- Closing a block writes its exit and records its extent. -/
theorem closeBlock_eq_ok (ran : closeBlock.run emitter = .ok closed extended) :
    ∃ region outer exit, emitter.pending = region :: outer ∧
      extended = { emitter.emit exit with pending := closed :: outer } ∧
      closed.stop = region.stop ∧ closed.current = none ∧
      (exit = .leave region.stop ∨ exit = .endFinally) ∧
      ∀ handler ∈ closed.handlers, handler ∈ region.handlers ∨
        region.current = some (handler.kind, handler.start) := by
  unfold closeBlock at ran
  rw [bind_eq_ok] at ran
  obtain ⟨_, _, ⟨⟩, ran⟩ := ran
  split at ran
  · cases ran
  · rename_i region outer isPending
    dsimp only at ran
    split at ran
    · rename_i isTry
      cases ran
      exact ⟨region, outer, _, isPending, rfl, rfl, isTry, .inl rfl,
        fun handler isHandler => .inl isHandler⟩
    · rename_i kind start isHandler
      cases ran
      refine ⟨region, outer, _, isPending, rfl, rfl, rfl, ?_, fun handler member => ?_⟩
      · split
        · exact .inr rfl
        · exact .inl rfl
      · rcases List.mem_append.mp member with early | late
        · exact .inl early
        · rw [List.mem_singleton.mp late]
          exact .inr isHandler

/-- After the exit of a block the depth may be anything. -/
theorem Balanced.closeBlock (balanced : emitter.Balanced image result ledger)
    (ran : closeBlock.run emitter = .ok closed extended) (depth : Nat) :
    extended.Balanced image result (emitter.noted ledger depth) ∧
      emitter.Continues ledger extended (emitter.noted ledger depth) ∧
      (emitter.noted ledger depth).depth extended.position = depth ∧
      closed ∈ extended.pending.head? ∧ closed.current = none := by
  obtain ⟨region, outer, exit, isPending, rfl, isStop, noBlock, isExit, handlers⟩ :=
    closeBlock_eq_ok ran
  have open' := balanced.pending region (isPending ▸ List.mem_cons_self)
  have continues := emitter.continues_emit ledger exit depth
  have flows : exit.Flows image result (emitter.noted ledger depth).depth
      (emitter.Reaches ledger) emitter.position := by
    rcases isExit with rfl | rfl
    · refine ⟨⟨0, 0⟩, rfl, Nat.zero_le _, nofun, fun label isTarget => ?_, nofun, nofun⟩
      rw [List.mem_singleton.mp isTarget]
      exact open'.stop
    · exact ⟨⟨0, 0⟩, rfl, Nat.zero_le _, nofun, nofun, nofun, nofun⟩
  have after := balanced.emit flows
  have continues : emitter.Continues ledger { emitter.emit exit with pending := closed :: outer }
      (emitter.noted ledger depth) :=
    ⟨continues.position, continues.labels, continues.depth, continues.label⟩
  refine ⟨⟨after.entry, after.flows, after.marked, after.regions, ?_⟩, continues,
    emitter.depth_noted ledger exit depth, rfl, noBlock⟩
  intro other isOther
  rcases List.mem_cons.mp isOther with rfl | isOuter
  · have stays := continues.balancedRegion open'
    refine ⟨isStop ▸ stays.stop, fun handler isHandler => ?_, by simp [noBlock]⟩
    rcases handlers handler isHandler with early | current
    · exact stays.handlers handler early
    · exact stays.current _ current
  · exact continues.balancedRegion (balanced.pending other (isPending ▸ List.mem_cons_of_mem _ isOuter))

/-- Code in whose innermost region a handler starts. -/
def withHandler (emitter : Emitter) (region : OpenRegion) (kind : HandlerKind) : Emitter :=
  { emitter with
    pending := { region with current := some (kind, emitter.position) } :: emitter.pending.tail }

theorem continues_withHandler (emitter : Emitter) (ledger : Ledger) (region : OpenRegion)
    (kind : HandlerKind) : emitter.Continues ledger (emitter.withHandler region kind) ledger :=
  ⟨Nat.le_refl _, Nat.le_refl _, fun _ _ => rfl, fun _ _ => rfl⟩

theorem Balanced.withHandler {kind : HandlerKind} (balanced : emitter.Balanced image result ledger)
    (isInnermost : region ∈ emitter.pending.head?)
    (isDepth : ledger.depth emitter.position = kind.entryDepth) :
    (emitter.withHandler region kind).Balanced image result ledger := by
  have continues := emitter.continues_withHandler ledger region kind
  refine ⟨balanced.entry, balanced.flows, balanced.marked, balanced.regions, ?_⟩
  intro other isOther
  rcases List.mem_cons.mp isOther with rfl | isOuter
  · have stays := balanced.pending region (List.mem_of_mem_head? isInnermost)
    refine ⟨stays.stop, stays.handlers, fun block isBlock => ?_⟩
    cases isBlock
    exact ⟨Nat.le_refl _, isDepth⟩
  · exact continues.balancedRegion (balanced.pending other (List.mem_of_mem_tail isOuter))

theorem beginCatch_eq_ok {type : RunTy} (ran : (beginCatch type).run emitter = .ok () extended) :
    ∃ closed middle, closeBlock.run emitter = .ok closed middle ∧
      extended = middle.withHandler closed (.catching type) := by
  unfold beginCatch at ran
  rw [bind_eq_ok] at ran
  obtain ⟨closed, middle, isClosed, ran⟩ := ran
  refine ⟨closed, middle, isClosed, ?_⟩
  split at ran
  · cases ran
  · cases ran
    rfl

theorem beginFinally_eq_ok (ran : beginFinally.run emitter = .ok () extended) :
    ∃ closed middle, closeBlock.run emitter = .ok closed middle ∧
      extended = middle.withHandler closed .final := by
  unfold beginFinally at ran
  rw [bind_eq_ok] at ran
  obtain ⟨closed, middle, isClosed, ran⟩ := ran
  cases ran
  exact ⟨closed, middle, isClosed, rfl⟩

/-- Code whose innermost region has become a closed one that ends here. -/
def withRegion (emitter : Emitter) (region : OpenRegion) : Emitter :=
  let marked := { emitter with pending := emitter.pending.tail }.withMark region.stop
  { marked with
    regions := marked.regions ++
      [⟨region.tryStart, region.tryStop.getD region.tryStart, region.handlers⟩] }

theorem continues_withRegion (emitter : Emitter) (ledger : Ledger) (region : OpenRegion) :
    emitter.Continues ledger (emitter.withRegion region) ledger :=
  ⟨Nat.le_refl _, by simp [withRegion, withMark], fun _ _ => rfl, fun _ _ => rfl⟩

theorem endTry_eq_ok (ran : endTry.run emitter = .ok () extended) :
    ∃ closed middle, closeBlock.run emitter = .ok closed middle ∧
      extended = middle.withRegion closed := by
  unfold endTry at ran
  rw [bind_eq_ok] at ran
  obtain ⟨_, _, ⟨⟩, ran⟩ := ran
  split at ran
  · cases ran
  · rename_i region outer isPending
    dsimp only at ran
    split at ran
    · cases ran
    · simp only [bind_eq_ok] at ran
      obtain ⟨closed, middle, isClosed, _, _, ⟨⟩, ⟨⟩, _, isMarked, ⟨⟩⟩ := ran
      obtain ⟨-, rfl⟩ := markLabel_eq_ok.mp isMarked
      exact ⟨closed, middle, isClosed, rfl⟩

theorem Balanced.withRegion (balanced : emitter.Balanced image result ledger)
    (isInnermost : region ∈ emitter.pending.head?) (isDepth : ledger.depth emitter.position = 0) :
    (emitter.withRegion region).Balanced image result ledger := by
  have stays := balanced.pending region (List.mem_of_mem_head? isInnermost)
  have marked := balanced.withMark (isDepth.trans stays.stop.2.symm)
  have continues : (emitter.withMark region.stop).Continues ledger (emitter.withRegion region)
      ledger :=
    ⟨Nat.le_refl _, Nat.le_refl _, fun _ _ => rfl, fun _ _ => rfl⟩
  refine ⟨marked.entry, marked.flows, marked.marked, fun other isOther handler isHandler => ?_,
    fun other isOther => continues.balancedRegion (marked.pending other ?_)⟩
  rcases List.mem_append.mp isOther with early | late
  · exact marked.regions other early handler isHandler
  · rw [List.mem_singleton.mp late] at isHandler
    exact stays.handlers handler isHandler
  · exact List.mem_of_mem_tail isOther

/-- In finished code every label has its position. -/
theorem finish_eq_ok {body : Body} (finished : emitter.finish = .ok body) :
    ∃ labels : Array Nat, (∀ index < emitter.labels.size, ∃ target : Nat,
        labels[index]? = some target ∧ emitter.labels[index]? = some (some target)) ∧
      body = ⟨emitter.instrs, labels, emitter.locals, emitter.regions⟩ := by
  unfold finish at finished
  split at finished
  · cases finished
  · obtain ⟨labels, arePositions, ⟨⟩⟩ := ClassForge.bind_eq_ok.mp finished
    refine ⟨labels.toArray, fun index within => ?_, rfl⟩
    have all := mapM_eq_ok.mp arePositions
    have bound : index < labels.length := by
      rw [← all.length_eq]
      simpa using within
    obtain ⟨entry, isEntry⟩ : ∃ entry, emitter.labels.toList.zipIdx[index]? = some entry := by
      simp [within]
    have same := forall₂_getElem? all isEntry (List.getElem?_eq_getElem bound)
    refine ⟨labels[index], by simp [bound], ?_⟩
    split at same
    · cases same
      obtain ⟨found, -⟩ := by simpa [List.getElem?_zipIdx] using isEntry
      exact found
    · cases same

end Emitter

end ClassForge
