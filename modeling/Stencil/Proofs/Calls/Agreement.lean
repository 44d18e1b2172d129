import Stencil.Proofs.Execution.Turns
import Stencil.Proofs.Simulation.Effects

/-!
# Both sides of a call

The caller counts bytes by the effect of the call, the callee by its frame; `call_effect` and
`ret_effect` say that they agree. `CallRuns` says how a method runs on a call, however it is called, and
`callRuns_of_parts` takes it from the way in, the way back and what the caller does with the result.
`KeepsConvention` says it of a call by symbol, and `keepsConvention_of_acts` takes that from what a
target's templates do one by one.
-/

namespace Stencil

open AddressMap Stateful

/-! ## Frames and effects -/

theorem typeFor_ok {tables : Table} {i : Instruction} {id : TypeId} {t : TypeDescriptor} :
    tables.typeFor i id = .ok t ↔ tables.type? id = some t := Table.require_ok

/-- A frame made for arguments and locals of these shapes. -/
structure FrameOf (frame : Frame) (argItems localItems : List StackItem) : Prop where
  args : frame.args = Frame.argSlots frame.returnBytes argItems
  locals : frame.locals = Frame.localSlots 0 localItems
  argBytes : frame.argBytes = countBytes argItems
  localBytes : frame.localBytes = countBytes localItems

/-- Bytes that the slots of all arguments take up, which `argBytes` counts in a word. -/
def Frame.argSpan (frame : Frame) : Nat := totalBytes (frame.args.map FrameSlot.item)

/-- Bytes that the slots of all locals take up, which `localBytes` counts in a word. -/
def Frame.localSpan (frame : Frame) : Nat := totalBytes (frame.locals.map FrameSlot.item)

theorem map_item_argSlots (returnBytes : Nat) (items : List StackItem) :
    (Frame.argSlots returnBytes items).map FrameSlot.item = items := by
  induction items with
  | nil => rfl
  | cons item items ih => rw [Frame.argSlots, List.map_cons, ih]

theorem map_item_localSlots (depth : Nat) (items : List StackItem) :
    (Frame.localSlots depth items).map FrameSlot.item = items := by
  induction items generalizing depth with
  | nil => rfl
  | cons item items ih => rw [Frame.localSlots, List.map_cons, ih]

namespace FrameOf

variable {frame : Frame} {argItems localItems : List StackItem}

theorem argSpan (h : FrameOf frame argItems localItems) : frame.argSpan = totalBytes argItems := by
  rw [Frame.argSpan, h.args, map_item_argSlots]

theorem localSpan (h : FrameOf frame argItems localItems) : frame.localSpan = totalBytes localItems := by
  rw [Frame.localSpan, h.locals, map_item_localSlots]

theorem argBytes_eq (h : FrameOf frame argItems localItems) : frame.argBytes = frame.argSpan % 2 ^ 32 := by
  rw [h.argBytes, h.argSpan, countBytes_eq]

/-- Locals that fit on the stack are counted exactly. -/
theorem localBytes_eq (h : FrameOf frame argItems localItems) (hroom : frame.localSpan / 4 ≤ stackCapacity) :
    frame.localBytes = frame.localSpan := by
  have hcapacity : stackCapacity < 2 ^ 20 := by decide
  rw [h.localBytes, h.localSpan]
  rw [h.localSpan] at hroom
  exact countBytes_of_lt (by omega)

end FrameOf

def Shaped (tables : Table) (pointerSize : Nat) (ids : List TypeId) (items : List StackItem) : Prop :=
  List.Forall₂ (fun id item => ∃ t, tables.type? id = some t ∧ t.stackItem pointerSize = item) ids items

theorem Shaped.unique {tables : Table} {pointerSize : Nat} {ids : List TypeId}
    {items items' : List StackItem} (h : Shaped tables pointerSize ids items)
    (h' : Shaped tables pointerSize ids items') : items = items' := by
  refine List.right_unique_forall₂' (fun id item item' hitem hitem' => ?_) h h'
  obtain ⟨t, ht, rfl⟩ := hitem
  obtain ⟨t', ht', rfl⟩ := hitem'
  rw [Option.some.inj (ht.symm.trans ht')]

theorem TypeShapes.shaped {env : SimEnv} {i : Instruction} {ids : List TypeId} {items : List StackItem}
    (h : TypeShapes env i ids items) : Shaped env.tables env.pointerSize ids items := by
  refine h.imp fun id item hitem => ?_
  obtain ⟨t, ht, hshape⟩ := answer_map.mp hitem
  exact ⟨t, typeFor_ok.mp ht, hshape⟩

section Frame

variable {tables : Table} {pointerSize : Nat} {m : MethodDescriptor} {frame : Frame}

theorem signatureItem_ok {id : TypeId} {item : StackItem}
    (h : Frame.signatureItem tables pointerSize id = .ok item) :
    ∃ t, tables.type? id = some t ∧ t.stackItem pointerSize = item := by
  obtain ⟨t, ht, hitem⟩ := answer_map.mp h
  exact ⟨t, typeFor_ok.mp ht, hitem⟩

/-- The shapes that a method's frame is made for: of the receiver, the parameters, the result and the
locals. -/
theorem ofMethod_ok (h : Frame.ofMethod tables pointerSize m = .ok frame) :
    ∃ this params locals, FrameOf frame (this ++ params) locals ∧
      this.map StackItem.size = (if m.isStatic then [] else [pointerSize]) ∧
      Shaped tables pointerSize m.params params ∧ Shaped tables pointerSize m.locals locals ∧
      Shaped tables pointerSize m.returnType.toList frame.returnItem.toList := by
  unfold Frame.ofMethod at h
  obtain ⟨this, hthis, h⟩ := answer_bind.mp h
  obtain ⟨params, hparams, h⟩ := answer_bind.mp h
  obtain ⟨returnItem, hreturn, h⟩ := answer_bind.mp h
  obtain ⟨locals, hlocals, h⟩ := answer_bind.mp h
  obtain rfl := Except.ok.inj h
  have hshaped : ∀ {ids : List TypeId} {items : List StackItem},
      ids.mapM (Frame.signatureItem tables pointerSize) = .ok items →
      Shaped tables pointerSize ids items :=
    fun hitems => (answer_mapM.mp hitems).imp fun _ _ hitem => signatureItem_ok hitem
  refine ⟨this, params, locals, ⟨?_, rfl, rfl, rfl⟩, ?_, hshaped hparams, hshaped hlocals, ?_⟩
  · cases returnItem <;> rfl
  · unfold Frame.receiver at hthis
    split at hthis
    · rename_i hstatic
      obtain rfl := Except.ok.inj hthis
      rw [if_pos hstatic, List.map_nil]
    · rename_i hstatic
      obtain ⟨t, -, rfl⟩ := answer_map.mp hthis
      rw [if_neg hstatic, List.map_singleton]
      split <;> rfl
  · cases hid : m.returnType with
    | none =>
      rw [hid] at hreturn
      obtain rfl := Except.ok.inj hreturn
      exact .nil
    | some id =>
      rw [hid] at hreturn
      obtain ⟨item, hitem, rfl⟩ := answer_map.mp (show (Frame.signatureItem tables pointerSize id).map
        some = .ok returnItem from hreturn)
      exact .cons (signatureItem_ok hitem) .nil

theorem returnBytes_eq (frame : Frame) : frame.returnBytes = totalBytes frame.returnItem.toList := by
  unfold Frame.returnBytes
  cases frame.returnItem <;> rfl

/-- On both targets values on the stack span whole words. -/
theorem TypeDescriptor.stackItem_size_dvd (t : TypeDescriptor) : 4 ∣ (t.stackItem 4).size := by
  have hround : 4 ∣ (max t.stackSize 1 + 3) / 4 * 4 % 2 ^ 32 := by omega
  unfold TypeDescriptor.stackItem
  split
  · exact Nat.dvd_refl 4
  · dsimp only
    split <;> exact hround

theorem TypeDescriptor.stackItem_size_lt (t : TypeDescriptor) {pointerSize : Nat} (h : pointerSize < 2 ^ 32) :
    (t.stackItem pointerSize).size < 2 ^ 32 := by
  unfold TypeDescriptor.stackItem
  split
  · exact h
  · dsimp only
    split <;> exact Nat.mod_lt _ (by decide)

theorem returnBytes_lt (h : Frame.ofMethod tables pointerSize m = .ok frame) (hpointer : pointerSize < 2 ^ 32) :
    frame.returnBytes < 2 ^ 32 := by
  obtain ⟨-, -, -, -, -, -, -, hresult⟩ := ofMethod_ok h
  rw [returnBytes_eq]
  cases hitem : frame.returnItem with
  | none => decide
  | some item =>
    rw [hitem] at hresult
    obtain ⟨id, -, ⟨t, -, rfl⟩, -, -⟩ := List.forall₂_cons_right_iff.mp hresult
    exact t.stackItem_size_lt hpointer

theorem Shaped.totalBytes_mod {ids : List TypeId} {items : List StackItem}
    (h : Shaped tables 4 ids items) : totalBytes items % 4 = 0 := by
  induction h with
  | nil => rfl
  | @cons id item ids items hitem _ ih =>
    obtain ⟨t, -, rfl⟩ := hitem
    have hsize := t.stackItem_size_dvd
    rw [totalBytes]
    omega

end Frame

theorem ite_not_static (isStatic : Bool) (size : Nat) :
    (if (!isStatic) = true then size else 0) = if isStatic = true then 0 else size := by
  cases isStatic <;> rfl

/-- What is counted for a call by a signature, up to the receiver, is what the frame of a method with these
parameters and this result has. -/
theorem callSizes_bytes {env : SimEnv} {i : Instruction} {e : Effect} {extra : List Nat}
    {signature callee : MethodDescriptor} {onReceiver : Bool} {frame : Frame}
    (hframe : Frame.ofMethod env.tables env.pointerSize callee = .ok frame)
    (hparams : signature.params = callee.params) (hreturn : signature.returnType = callee.returnType)
    (h : CallSizes env i e extra signature onReceiver) :
    totalBytes e.popped + (if callee.isStatic then 0 else env.pointerSize) =
        extra.sum + frame.argSpan + (if onReceiver then env.pointerSize else 0) ∧
      totalBytes e.pushed = frame.returnBytes := by
  obtain ⟨items, result, hitems, hresult, hcounts⟩ := h
  rw [hparams] at hitems
  rw [hreturn] at hresult
  obtain ⟨this, params, locals, hof, hthis, hshaped, -, hreturned⟩ := ofMethod_ok hframe
  obtain rfl := hitems.shaped.unique hshaped
  constructor
  · have hreceiver : (this.map StackItem.size).sum =
        if callee.isStatic then 0 else env.pointerSize := by
      rw [hthis]
      cases callee.isStatic <;> rfl
    have hon : (if onReceiver then [env.pointerSize] else []).sum =
        if onReceiver then env.pointerSize else 0 := by
      cases onReceiver <;> rfl
    rw [hcounts.totalPopped, hof.argSpan, totalBytes_eq_sum, List.map_append, List.map_reverse,
      List.sum_append, List.sum_append, List.sum_append, List.sum_reverse, hreceiver, hon]
    omega
  · rw [hcounts.totalPushed, hresult.shaped.unique hreturned, returnBytes_eq, totalBytes_eq_sum]

/-- The caller counts the bytes that the callee's frame has. -/
theorem call_effect {env : SimEnv} {i : Instruction} {stack stack' : OperandStack} {e : Effect}
    {callee : MethodDescriptor} {frame : Frame} (hpointer : env.pointerSize < 2 ^ 32)
    (hop : i.op.operation = .call) (hcallee : env.tables.resolveMethod i = .ok callee)
    (hframe : Frame.ofMethod env.tables env.pointerSize callee = .ok frame)
    (h : simulate env i stack = .ok e stack') :
    e.poppedBytes = frame.argBytes ∧ e.pushedBytes = frame.returnBytes := by
  have hsizes := (simulate_exchange h).sizes
  rw [hop] at hsizes
  obtain ⟨m, hm, hcounts⟩ := hsizes
  obtain rfl := Except.ok.inj (hm.symm.trans hcallee)
  obtain ⟨hpopped, hpushed⟩ := callSizes_bytes hframe rfl rfl hcounts
  rw [ite_not_static, List.sum_nil, Nat.zero_add] at hpopped
  obtain ⟨this, params, locals, hof, -⟩ := ofMethod_ok hframe
  constructor
  · rw [Effect.poppedBytes, countBytes_eq, Nat.add_right_cancel hpopped, hof.argBytes_eq]
  · rw [Effect.pushedBytes, countBytes_eq, hpushed, Nat.mod_eq_of_lt (returnBytes_lt hframe hpointer)]

/-- A return pops a result of the size that the frame has room for. -/
theorem ret_effect {env : SimEnv} {i : Instruction} {stack stack' : OperandStack} {e : Effect}
    (hop : i.op.operation = .ret) (hreturn : env.frame.returnBytes < 2 ^ 32)
    (h : simulate env i stack = .ok e stack') : e.poppedBytes = env.frame.returnBytes := by
  have hsizes := (simulate_exchange h).sizes
  rw [hop] at hsizes
  rw [Effect.poppedBytes, countBytes_eq, Effect.Sizes.totalPopped hsizes, ← totalBytes_eq_sum, ← returnBytes_eq,
    Nat.mod_eq_of_lt hreturn]

section Sizes

variable {tables : Table} {m : MethodDescriptor} {frame : Frame} {sizes : Nat → Prop}

theorem Shaped.forall_size {ids : List TypeId} {items : List StackItem} (h : Shaped tables 4 ids items)
    (htypes : ∀ id ∈ ids, ∀ t, tables.type? id = some t → sizes (t.stackItem 4).size) :
    ∀ item ∈ items, sizes item.size := by
  induction h with
  | nil => exact fun _ hitem => absurd hitem List.not_mem_nil
  | @cons id _ _ _ hhead _ ih =>
    rw [List.forall_mem_cons] at htypes
    obtain ⟨t, ht, rfl⟩ := hhead
    exact List.forall_mem_cons.mpr ⟨htypes.1 t ht, ih htypes.2⟩

/-- The receiver is a pointer, and the other arguments are values of the parameters' types. -/
theorem ofMethod_argSizes (h : Frame.ofMethod tables 4 m = .ok frame) (hword : sizes 4)
    (htypes : ∀ id ∈ m.params, ∀ t, tables.type? id = some t → sizes (t.stackItem 4).size) :
    ∀ slot ∈ frame.args, sizes slot.item.size := by
  obtain ⟨this, params, locals, hof, hthis, hparams, -, -⟩ := ofMethod_ok h
  intro slot hslot
  have hitem : slot.item ∈ this ++ params := by
    rw [← map_item_argSlots frame.returnBytes (this ++ params), ← hof.args]
    exact List.mem_map_of_mem hslot
  rcases List.mem_append.mp hitem with hmem | hmem
  · have hsize : slot.item.size ∈ this.map StackItem.size := List.mem_map_of_mem hmem
    have hpointer : slot.item.size = 4 := by
      rw [hthis] at hsize
      split at hsize
      · cases hsize
      · exact List.mem_singleton.mp hsize
    rwa [hpointer]
  · exact hparams.forall_size htypes _ hmem

theorem ofMethod_localSizes (h : Frame.ofMethod tables 4 m = .ok frame)
    (htypes : ∀ id ∈ m.locals, ∀ t, tables.type? id = some t → sizes (t.stackItem 4).size) :
    ∀ slot ∈ frame.locals, sizes slot.item.size := by
  obtain ⟨this, params, locals, hof, -, -, hlocals, -⟩ := ofMethod_ok h
  intro slot hslot
  have hitem : slot.item ∈ locals := by
    rw [← map_item_localSlots 0 locals, ← hof.locals]
    exact List.mem_map_of_mem hslot
  exact hlocals.forall_size htypes _ hitem

/-- All slots are made of whole words. -/
theorem whole_of_ofMethod (h : Frame.ofMethod tables 4 m = .ok frame) :
    (∀ slot ∈ frame.args, 4 ∣ slot.item.size) ∧ ∀ slot ∈ frame.locals, 4 ∣ slot.item.size :=
  ⟨ofMethod_argSizes h (Nat.dvd_refl 4) fun _ _ t _ => t.stackItem_size_dvd,
    ofMethod_localSizes h fun _ _ t _ => t.stackItem_size_dvd⟩

end Sizes

theorem words_of_ofMethod {tables : Table} {m : MethodDescriptor} {frame : Frame}
    (h : Frame.ofMethod tables 4 m = .ok frame) :
    (∃ items localItems, FrameOf frame items localItems) ∧ frame.localBytes % 4 = 0 ∧
      frame.returnBytes % 4 = 0 := by
  obtain ⟨this, params, locals, hof, -, -, hlocals, hresult⟩ := ofMethod_ok h
  refine ⟨⟨_, _, hof⟩, ?_, ?_⟩
  · have hwords := hlocals.totalBytes_mod
    rw [hof.localBytes, countBytes_eq]
    omega
  · rw [returnBytes_eq]
    exact hresult.totalBytes_mod

/-! ## What the callee finds -/

/-- Behind the start of a method word `k` of each argument lies at the offset of its slot plus `4 * k`
from the frame pointer, and every byte of the locals is zero. -/
structure Finds (frame : Frame) (args : List (List UInt32)) (fp : UInt32) (memory : Memory) : Prop where
  argument : ∀ (index : Nat) (place : FrameSlot) (value : List UInt32), frame.args[index]? = some place →
    args[index]? = some value → ∀ (k : Nat) (w : UInt32), value[k]? = some w →
      memory.read (fp + (place.offset + Int32.ofNat (4 * k)).toUInt32) 4 = .ok w
  cleared : ∀ a, fp.toNat - frame.localSpan ≤ a → a < fp.toNat → memory.byte a = 0

theorem byte_of_valueAt_zero {memory : Memory} {a count c : Nat} (h : memory.valueAt a count = 0)
    (hle : a ≤ c) (hlt : c < a + count) : memory.byte c = 0 := by
  induction count generalizing a with
  | zero => omega
  | succ count ih =>
    rw [Memory.valueAt] at h
    by_cases hac : a = c
    · subst hac
      exact UInt8.toNat_inj.mp (show (memory.byte a).toNat = 0 by omega)
    · exact ih (a := a + 1) (by omega) (by omega) (by omega)

theorem byte_of_holds_zeros {memory : Memory} {words : List UInt32} {count a : Nat}
    (h : memory.Holds (List.replicate count 0 ++ words))
    (hle : 0x3FFFF0 - 4 * (count + words.length) ≤ a) (hlt : a < 0x3FFFF0 - 4 * words.length) :
    memory.byte a = 0 := by
  induction count with
  | zero => omega
  | succ count ih =>
    rw [List.replicate_succ, List.cons_append] at h
    obtain ⟨hroom, hvalue, hrest⟩ := h
    rw [List.length_append, List.length_replicate] at hroom hvalue
    have hcapacity : count + words.length < 0xFFBFC := hroom
    by_cases ha : 0x3FFFF0 - 4 * (count + words.length) ≤ a
    · exact ih hrest ha
    · refine byte_of_valueAt_zero (a := wordPlace (count + words.length)) hvalue ?_ ?_
      · rw [wordPlace]
        omega
      · rw [wordPlace]
        omega

theorem finds_of_holds {frame : Frame} {items localItems : List StackItem} {memory : Memory}
    {saved back : UInt32} {slot deep : List UInt32} {args : List (List UInt32)}
    (hof : FrameOf frame items localItems) (hlocals : frame.localBytes % 4 = 0)
    (hspan : frame.localBytes = frame.localSpan)
    (hfill : Fill (frame.args.map FrameSlot.item) args) (hslot : 4 * slot.length = frame.returnBytes)
    (hholds : memory.Holds (List.replicate (frame.localBytes / 4) 0 ++
      frameWords saved back slot args deep)) :
    Finds frame args (stackPointer (frameWords saved back slot args deep)) memory where
  argument index place value hplace hvalue k w hw := by
    rw [hof.args, map_item_argSlots] at hfill
    rw [hof.args, ← hslot] at hplace
    obtain ⟨value', front, rest, hvalue', -, hlies, -⟩ :=
      @lies_argument items saved back slot deep args hfill index place hplace
    obtain rfl := Option.some.inj (hvalue.symm.trans hvalue')
    obtain ⟨hk, hget⟩ := List.getElem?_eq_some_iff.mp hw
    have hsplit : value = value.take k ++ w :: value.drop (k + 1) := by
      rw [← hget]
      simp
    have hlength : (value.take k).length = k := List.length_take_of_le (by omega)
    obtain ⟨hwords, haddress⟩ :=
      (hlies.below (List.replicate (frame.localBytes / 4) 0)).word hsplit
    rw [hlength] at haddress
    rw [hwords] at hholds
    rw [haddress]
    exact hholds.read
  cleared a hle hlt := by
    have hfp : (stackPointer (frameWords saved back slot args deep)).toNat =
        0x3FFFF0 - 4 * (frameWords saved back slot args deep).length := by
      have hroom := hholds.of_append.1
      rw [frameWords, stackPointer_cons, toNat_wordAddress hroom]
      rfl
    rw [hfp, ← hspan] at hle
    rw [hfp] at hlt
    refine byte_of_holds_zeros hholds ?_ hlt
    omega

/-! ## The way there and back -/

section Convention

variable {I R M : Type} [TargetInstr I] [LabelUse I] [Semantics I R M]

/-- The templates of a call and of the method that it calls, as they lie in a program: the call itself
from `site` on, the start of the method from `entry` on, a return from `exit` on and the end of the
method from `stop` on. -/
structure CallPlaces (backend : Backend I) (p : Program I) (caller callee : EmitContext)
    (call ret : Instruction) (e e' : Effect) (site entry exit stop : Nat) : Prop where
  fits : p.code.size ≤ codeLimit
  calls : Placed p site (backend.emit caller call e).code
  called : (backend.emit caller call e).failure = none
  resolves : p.resolve callee.method.symbol = .ok (codeAddress entry)
  starts : Placed p entry (backend.emit callee (.pseudo 0 .methodStart) {}).code
  returns : Placed p exit (backend.emit callee ret e').code
  returned : (backend.emit callee ret e').failure = none
  ends : Placed p stop (TargetInstr.label callee.endLabel ::
    (backend.emit callee (.pseudo callee.endPosition .methodEnd) {}).code)

/-- What a call does. The callee finds its arguments in their slots and zeros in its locals. From a
return with the words `value` on top, the machine gets behind the call with the result in place of the
arguments, the caller's frame pointer, and everything deeper as it was. Until then the callee may have
changed its locals, its arguments and its return slot, and used the stack below them. -/
def KeepsConvention (backend : Backend I) (caller callee : EmitContext) (call ret : Instruction)
    (e e' : Effect) : Prop :=
  ∀ {p : Program I} {site entry exit stop : Nat},
    CallPlaces backend p caller callee call ret e e' site entry exit stop →
  ∀ {args : List (List UInt32)} {deep : List UInt32} {fp : UInt32} {m : M},
    Fill (callee.frame.args.map FrameSlot.item) args →
    callee.frame.localSpan / 4 + (callee.frame.returnBytes / 4 + (pushedWords args ++ deep).length + 2) ≤
      stackCapacity →
    Poised I m site (pushedWords args ++ deep) fp →
    Reaches (Semantics.cycle p) m fun m₁ => ∃ back slot fp₁, 4 * slot.length = callee.frame.returnBytes ∧
      fp₁ = stackPointer (frameWords fp back slot args deep) ∧
      Poised I m₁ (entry + (backend.emit callee (.pseudo 0 .methodStart) {}).code.length)
        (List.replicate (callee.frame.localBytes / 4) 0 ++ frameWords fp back slot args deep) fp₁ ∧
      Finds callee.frame args fp₁ (Semantics.memory I m₁) ∧
      ∀ {value own slot' args' : List UInt32} {m₂ : M}, 4 * value.length = callee.frame.returnBytes →
        slot'.length = slot.length → args'.length = (pushedWords args).length →
        Poised I m₂ exit (value ++ (own ++ fp :: back :: (slot' ++ (args' ++ deep)))) fp₁ →
        Reaches (Semantics.cycle p) m₂ fun m₃ =>
          Poised I m₃ (site + (backend.emit caller call e).code.length) (value ++ deep) fp

/-- The templates of a method that is called, as they lie in a program: the start from `entry` on, a
return from `exit` on and the end from `stop` on. -/
structure CalleePlaces (backend : Backend I) (p : Program I) (callee : EmitContext) (ret : Instruction)
    (e' : Effect) (entry exit stop : Nat) : Prop where
  fits : p.code.size ≤ codeLimit
  resolves : p.resolve callee.method.symbol = .ok (codeAddress entry)
  starts : Placed p entry (backend.emit callee (.pseudo 0 .methodStart) {}).code
  returns : Placed p exit (backend.emit callee ret e').code
  returned : (backend.emit callee ret e').failure = none
  ends : Placed p stop (TargetInstr.label callee.endLabel ::
    (backend.emit callee (.pseudo callee.endPosition .methodEnd) {}).code)

omit [LabelUse I] in
theorem CallPlaces.callee {backend : Backend I} {p : Program I} {caller callee : EmitContext}
    {call ret : Instruction} {e e' : Effect} {site entry exit stop : Nat}
    (h : CallPlaces backend p caller callee call ret e e' site entry exit stop) :
    CalleePlaces backend p callee ret e' entry exit stop :=
  ⟨h.fits, h.resolves, h.starts, h.returns, h.returned, h.ends⟩

/-- The method runs on a call. It finds the arguments in their slots and zeros in its locals, with
`below` deeper than the arguments. From a return with the words `value` on top, the machine gets to
`next` with the result on `rest`, and with the caller's frame pointer. Until then the method may have
changed its locals, its arguments and its return slot, and used the stack below them. -/
def CallRuns (backend : Backend I) (p : Program I) (callee : EmitContext) (entry exit next : Nat)
    (args : List (List UInt32)) (below rest : List UInt32) (fp : UInt32) (m : M) : Prop :=
  Reaches (Semantics.cycle p) m fun m₁ => ∃ back slot fp₁, 4 * slot.length = callee.frame.returnBytes ∧
    fp₁ = stackPointer (frameWords fp back slot args below) ∧
    Poised I m₁ (entry + (backend.emit callee (.pseudo 0 .methodStart) {}).code.length)
      (List.replicate (callee.frame.localBytes / 4) 0 ++ frameWords fp back slot args below) fp₁ ∧
    Finds callee.frame args fp₁ (Semantics.memory I m₁) ∧
    ∀ {value own slot' args' : List UInt32} {m₂ : M}, 4 * value.length = callee.frame.returnBytes →
      slot'.length = slot.length → args'.length = (pushedWords args).length →
      Poised I m₂ exit (value ++ (own ++ fp :: back :: (slot' ++ (args' ++ below)))) fp₁ →
      Reaches (Semantics.cycle p) m₂ fun m₃ => Poised I m₃ next (value ++ rest) fp

/-- From `exit` the machine gets back to the caller, with the result in place of the return slot. -/
def LeavesMethod (I : Type) {R M : Type} [TargetInstr I] [LabelUse I] [Semantics I R M] (p : Program I)
    (frame : Frame) (exit back : Nat) : Prop :=
  ∀ {m : M} {value own slot rest : List UInt32} {saved : UInt32},
    4 * value.length = frame.returnBytes → slot.length = value.length →
    Poised I m exit (value ++ (own ++ saved :: codeAddress back :: (slot ++ rest)))
      (stackPointer (saved :: codeAddress back :: (slot ++ rest))) →
    Reaches (Semantics.cycle p) m fun m' => Poised I m' back (value ++ rest) saved

/-- The machine gets behind the start of a method, which has the words of its arguments above its return
slot. -/
def EntersMethod (I : Type) {R M : Type} [TargetInstr I] [LabelUse I] [Semantics I R M] (p : Program I)
    (frame : Frame) (body back : Nat) (words : List UInt32) (fp : UInt32) (m : M) : Prop :=
  Reaches (Semantics.cycle p) m fun m' => ∃ slot : List UInt32, slot.length = frame.returnBytes / 4 ∧
    Poised I m' body (List.replicate (frame.localBytes / 4) 0 ++ fp :: codeAddress back :: (slot ++ words))
      (stackPointer (fp :: codeAddress back :: (slot ++ words)))

theorem callRuns_of_parts {backend : Backend I} {p : Program I} {callee : EmitContext}
    {items localItems : List StackItem} (hof : FrameOf callee.frame items localItems)
    (hlocals : callee.frame.localBytes % 4 = 0) (hspan : callee.frame.localBytes = callee.frame.localSpan)
    (hreturn : callee.frame.returnBytes % 4 = 0)
    {entry exit back next : Nat} {args : List (List UInt32)} {below rest : List UInt32} {fp : UInt32}
    {m : M} (hfill : Fill (callee.frame.args.map FrameSlot.item) args)
    (henters : EntersMethod I p callee.frame
      (entry + (backend.emit callee (.pseudo 0 .methodStart) {}).code.length) back
      (pushedWords args ++ below) fp m)
    (hleaves : LeavesMethod (M := M) I p callee.frame exit back)
    (hsettles : ∀ {value args' : List UInt32} {m' : M}, 4 * value.length = callee.frame.returnBytes →
      args'.length = (pushedWords args).length → Poised I m' back (value ++ (args' ++ below)) fp →
      Reaches (Semantics.cycle p) m' fun m'' => Poised I m'' next (value ++ rest) fp) :
    CallRuns backend p callee entry exit next args below rest fp m := by
  refine henters.mono fun m₁ ⟨slot, hslot, hm₁⟩ => ?_
  have hbytes : 4 * slot.length = callee.frame.returnBytes := by omega
  refine ⟨codeAddress back, slot, _, hbytes, rfl, hm₁, finds_of_holds hof hlocals hspan hfill hbytes hm₁.holds, ?_⟩
  intro value own slot' args' m₂ hvalue hslot' hargs' hm₂
  have hfp : stackPointer (frameWords fp (codeAddress back) slot args below) =
      stackPointer (fp :: codeAddress back :: (slot' ++ (args' ++ below))) :=
    stackPointer_of_length (by simp [frameWords, hslot', hargs'])
  rw [hfp] at hm₂
  exact (hleaves hvalue (by omega) hm₂).trans fun m₃ hm₃ => hsettles hvalue hargs' hm₃

theorem length_of_fill {frame : Frame} {items localItems : List StackItem} {args : List (List UInt32)}
    (hof : FrameOf frame items localItems) (hfill : Fill (frame.args.map FrameSlot.item) args)
    (hroom : (pushedWords args).length ≤ stackCapacity) :
    4 * (pushedWords args).length = frame.argBytes := by
  have hcapacity : stackCapacity < 2 ^ 20 := by decide
  have hspan : frame.argSpan = 4 * (pushedWords args).length := hfill.totalBytes
  rw [hof.argBytes_eq, hspan, Nat.mod_eq_of_lt (by omega)]

/-- What the parts of a call do; control comes back to the instruction of index `back`. -/
structure CallActs (p : Program I) (frame : Frame) (site body exit back next : Nat) : Prop where
  enters : ∀ {m : M} {words : List UInt32} {fp : UInt32},
    frame.localBytes / 4 + (frame.returnBytes / 4 + words.length + 2) ≤ stackCapacity →
    Poised I m site words fp →
    Reaches (Semantics.cycle p) m fun m' => ∃ slot : List UInt32, slot.length = frame.returnBytes / 4 ∧
      Poised I m' body
        (List.replicate (frame.localBytes / 4) 0 ++ fp :: codeAddress back :: (slot ++ words))
        (stackPointer (fp :: codeAddress back :: (slot ++ words)))
  leaves : ∀ {m : M} {value own slot rest : List UInt32} {saved : UInt32},
    4 * value.length = frame.returnBytes → slot.length = value.length →
    Poised I m exit (value ++ (own ++ saved :: codeAddress back :: (slot ++ rest)))
      (stackPointer (saved :: codeAddress back :: (slot ++ rest))) →
    Reaches (Semantics.cycle p) m fun m' => Poised I m' back (value ++ rest) saved
  settles : ∀ {m : M} {value args deep : List UInt32} {fp : UInt32},
    4 * value.length = frame.returnBytes → 4 * args.length = frame.argBytes →
    Poised I m back (value ++ (args ++ deep)) fp →
    Reaches (Semantics.cycle p) m fun m' => Poised I m' next (value ++ deep) fp

theorem keepsConvention_of_acts {backend : Backend I} {caller callee : EmitContext}
    {call ret : Instruction} {e e' : Effect} {items localItems : List StackItem}
    (hof : FrameOf callee.frame items localItems) (hlocals : callee.frame.localBytes % 4 = 0)
    (hreturn : callee.frame.returnBytes % 4 = 0)
    (hacts : ∀ {p : Program I} {site entry exit stop : Nat},
      CallPlaces backend p caller callee call ret e e' site entry exit stop →
      ∃ back, CallActs p callee.frame site
        (entry + (backend.emit callee (.pseudo 0 .methodStart) {}).code.length) exit back
        (site + (backend.emit caller call e).code.length)) :
    KeepsConvention backend caller callee call ret e e' := by
  intro p site entry exit stop hplaces args deep fp m hfill hroom hm
  obtain ⟨back, acts⟩ := hacts hplaces
  have hspan := hof.localBytes_eq (by omega)
  rw [List.length_append] at hroom
  have hargs := length_of_fill hof hfill (by omega)
  have henters := acts.enters (by rwa [hspan, List.length_append]) hm
  exact callRuns_of_parts hof hlocals hspan hreturn hfill henters
    (fun hvalue hslot hm' => acts.leaves hvalue hslot hm')
    fun hvalue hargs' hm' => acts.settles hvalue (by omega) hm'

end Convention

end Stencil
