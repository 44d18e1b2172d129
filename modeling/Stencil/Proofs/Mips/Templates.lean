import Stencil.Proofs.Height.Words
import Stencil.Proofs.Mips.Balance

/-!
# Loads, stores, calls and allocations on MIPS32

The rest of the templates, and all of them together: the template of an instruction adds to the
stack pointer what the simulation popped less what it pushed (`emit_conserves`).
-/

namespace Stencil.Mips

open Stateful

variable {ctx : EmitContext} {env : SimEnv} {i : Instruction} {stack : OperandStack} {e : Effect}
  {code : List Instr}

/-! ## Frame slots, constants and shuffles -/

theorem reachableSlot_ok {isArg : Bool} {words : Nat} {base : Int32}
    (h : reachableSlot ctx i isArg = .ok (words, base)) :
    ∃ slot, ctx.slot i isArg = .ok slot ∧ words = slot.item.words := by
  obtain ⟨slot, hslot, h⟩ := answer_bind.mp h
  obtain ⟨base', -, h⟩ := answer_bind.mp h
  obtain ⟨stop, -, h⟩ := answer_bind.mp h
  obtain ⟨rfl, rfl⟩ := Prod.mk.inj (Except.ok.inj h)
  exact ⟨slot, hslot, rfl⟩

theorem loadSlot_shifts {isArg : Bool} {slot : FrameSlot} (hcode : loadSlot ctx i isArg = .ok code)
    (hslot : ∀ slot', ctx.slot i isArg = .ok slot' →
      slot' = slot ∧ 4 * slot.item.words = slot.item.size) :
    Shifts code (-UInt32.ofNat slot.item.size) := by
  obtain ⟨⟨words, base⟩, hreach, hcode⟩ := answer_bind.mp hcode
  obtain rfl := Except.ok.inj hcode
  obtain ⟨slot', hslot', rfl⟩ := reachableSlot_ok hreach
  obtain ⟨rfl, hwords⟩ := hslot slot' hslot'
  have hpushes := shifts_flatMap (List.range slot'.item.words).reverse fun k _ =>
    (shifts_of_movesAll rfl :
      Shifts (Instr.lw .t6 (base + Int32.ofNat (4 * k)) .fp :: Instr.push .t6) (-4))
  rwa [List.length_reverse, List.length_range, ofNat_mul_neg_four, hwords] at hpushes

theorem storeSlot_shifts {isArg : Bool} {slot : FrameSlot}
    (hcode : storeSlot ctx i isArg = .ok code)
    (hslot : ∀ slot', ctx.slot i isArg = .ok slot' →
      slot' = slot ∧ 4 * slot.item.words = slot.item.size) :
    Shifts code (UInt32.ofNat slot.item.size) := by
  obtain ⟨⟨words, base⟩, hreach, hcode⟩ := answer_bind.mp hcode
  obtain rfl := Except.ok.inj hcode
  obtain ⟨slot', hslot', rfl⟩ := reachableSlot_ok hreach
  obtain ⟨rfl, hwords⟩ := hslot slot' hslot'
  have hpops := shifts_flatMap (List.range slot'.item.words) fun k _ =>
    (shifts_of_movesAll rfl :
      Shifts (Instr.pop .t6 ++ [Instr.sw .t6 (base + Int32.ofNat (4 * k)) .fp]) 4)
  rwa [List.length_range, ofNat_mul_four, hwords] at hpops

theorem slotAddress_shifts {isArg : Bool} (hcode : slotAddress ctx i isArg = .ok code) :
    Shifts code (-4) := by
  obtain ⟨⟨words, base⟩, -, hcode⟩ := answer_bind.mp hcode
  obtain rfl := Except.ok.inj hcode
  exact shifts_of_movesAll rfl

theorem loadConst_shifts (hcode : loadConst i = .ok code) :
    Shifts code (-UInt32.ofNat (if i.op = .ldcI8 then 8 else 4)) := by
  unfold loadConst at hcode
  split at hcode
  · rename_i hop
    obtain ⟨value, -, rfl⟩ := answer_map.mp hcode
    rw [if_pos hop]
    have hboth : ∀ low high, Shifts (Instr.pushImm high ++ Instr.pushImm low) (-4 + -4) :=
      fun low high => (pushImm_shifts high).append (pushImm_shifts low)
    rw [show (-4 : UInt32) + -4 = -UInt32.ofNat 8 from rfl] at hboth
    exact hboth _ _
  · rename_i hop
    obtain ⟨value, -, rfl⟩ := answer_map.mp hcode
    rw [if_neg hop]
    exact pushImm_shifts value

theorem loadSymbol_shifts {symbol : Except CompileError Symbol}
    (hcode : loadSymbol symbol = .ok code) : Shifts code (-4) := by
  obtain ⟨s, -, rfl⟩ := answer_map.mp hcode
  exact pushAddr_shifts s

theorem sizeOf_shifts (hcode : sizeOf ctx i = .ok code) : Shifts code (-4) := by
  obtain ⟨access, -, rfl⟩ := answer_map.mp hcode
  exact pushImm_shifts _

theorem dup_shifts {top : StackItem} (hpushed : e.pushed = [top.stored]) (hwords : 4 ∣ top.size)
    (hcode : dup i e = .ok code) : Shifts code (-UInt32.ofNat top.size) := by
  have hresult : e.result.size = top.size := by
    rw [Effect.result, hpushed]
    rfl
  obtain ⟨offset, -, hcode⟩ := answer_bind.mp hcode
  obtain rfl := Except.ok.inj hcode
  rw [hresult]
  have hpushes := shifts_replicate (top.size / 4)
    (shifts_of_movesAll rfl : Shifts (Instr.lw .t6 offset .sp :: Instr.push .t6) (-4))
  rwa [ofNat_mul_neg_four, Nat.mul_div_cancel' hwords] at hpushes

theorem popItem_shifts {top : StackItem} (hpopped : e.popped = [top]) :
    Shifts (pop e) (UInt32.ofNat top.size) := by
  have hoperand : e.operand 0 = top := by
    rw [Effect.operand, hpopped]
    rfl
  unfold pop
  rw [hoperand]
  refine Shifts.after ?_ (drop_shifts top.size)
  split
  · exact callSymbol_shifts _
  · exact shifts_nil

/-! ## Fields, indirect accesses and arrays -/

theorem reachableField_ok {field : FieldDescriptor} {access : Access} {offset : Int32}
    (h : reachableField ctx i = .ok (field, access, offset)) :
    ctx.fieldAccess i = .ok (field, access) := by
  obtain ⟨⟨field', access'⟩, haccess, h⟩ := answer_bind.mp h
  obtain ⟨offset', -, h⟩ := answer_bind.mp h
  obtain ⟨stop, -, h⟩ := answer_bind.mp h
  obtain ⟨rfl, hpair⟩ := Prod.mk.inj (Except.ok.inj h)
  obtain ⟨rfl, rfl⟩ := Prod.mk.inj hpair
  exact haccess

theorem loadField_conserves {item : StackItem} (hmatches : Matches ctx env i stack)
    (hshape : FieldShape env i item) (hsizes : e.Sizes [4] [item.size])
    (hcode : loadField ctx i = .ok code) : Conserves code e.rise := by
  obtain ⟨⟨field, access, offset⟩, hreach, hcode⟩ := answer_bind.mp hcode
  obtain rfl := Except.ok.inj hcode
  refine .around (pop_shifts (r := .t0) rfl) (nullCheck_track .t0)
    (pushFromMemory_shifts _ _ _ _ _) ?_
  rw [wordCount, hmatches.words_of_field hshape (reachableField_ok hreach), hsizes.rise]
  simp [UInt32.sub_eq_add_neg]

theorem loadFieldAddress_conserves (hsizes : e.Sizes [4] [4])
    (hcode : loadFieldAddress ctx i = .ok code) : Conserves code e.rise := by
  obtain ⟨⟨field, access, offset⟩, -, hcode⟩ := answer_bind.mp hcode
  obtain rfl := Except.ok.inj hcode
  have hpush : Shifts ([Instr.addiu .t0 .t0 offset] ++ Instr.push .t0) (-4) := shifts_of_movesAll rfl
  rw [List.append_assoc]
  refine .around (pop_shifts (r := .t0) rfl) (nullCheck_track .t0) hpush ?_
  rw [hsizes.rise]
  rfl

theorem storeField_conserves {item : StackItem} (hmatches : Matches ctx env i stack)
    (hshape : FieldShape env i item) (hsizes : e.Sizes [item.size, 4] [])
    (hcode : storeField ctx i e = .ok code) : Conserves code e.rise := by
  obtain ⟨⟨field, access, offset⟩, hreach, hcode⟩ := answer_bind.mp hcode
  obtain ⟨value, -, hcode⟩ := answer_bind.mp hcode
  obtain rfl := Except.ok.inj hcode
  have hload : Shifts [Instr.lw .t0 value .sp] 0 := shifts_of_movesAll rfl
  rw [List.append_assoc]
  refine .around hload (nullCheck_track .t0)
    ((popToMemory_shifts _ _ _ _).append (drop_shifts 4)) ?_
  rw [wordCount, hmatches.words_of_field hshape (reachableField_ok hreach), hsizes.rise]
  simp [UInt32.ofNat_add]

theorem loadStatic_shifts {item : StackItem} (hmatches : Matches ctx env i stack)
    (hshape : FieldShape env i item) (hcode : loadStatic ctx i = .ok code) :
    Shifts code (-UInt32.ofNat item.size) := by
  obtain ⟨⟨field, access, offset⟩, hreach, hcode⟩ := answer_bind.mp hcode
  obtain rfl := Except.ok.inj hcode
  have haddress : Shifts [Instr.la .t0 field.symbol] 0 := shifts_of_movesAll rfl
  rw [← hmatches.words_of_field hshape (reachableField_ok hreach)]
  exact haddress.after (pushFromMemory_shifts _ _ _ _ _)

theorem loadStaticAddress_shifts (hcode : loadStaticAddress ctx i = .ok code) :
    Shifts code (-4) := by
  obtain ⟨⟨field, access, offset⟩, -, hcode⟩ := answer_bind.mp hcode
  obtain rfl := Except.ok.inj hcode
  exact pushAddr_shifts _

theorem storeStatic_shifts {item : StackItem} (hmatches : Matches ctx env i stack)
    (hshape : FieldShape env i item) (hcode : storeStatic ctx i = .ok code) :
    Shifts code (UInt32.ofNat item.size) := by
  obtain ⟨⟨field, access, offset⟩, hreach, hcode⟩ := answer_bind.mp hcode
  obtain rfl := Except.ok.inj hcode
  have haddress : Shifts [Instr.la .t0 field.symbol] 0 := shifts_of_movesAll rfl
  rw [← hmatches.words_of_field hshape (reachableField_ok hreach)]
  exact haddress.after (popToMemory_shifts _ _ _ _)

theorem loadIndirect_conserves {kind : ValueKind} {item : StackItem}
    (hmatches : Matches ctx env i stack) (hshape : KindShape env i kind item)
    (hsizes : e.Sizes [4] [item.size]) (hcode : loadIndirect ctx i kind = .ok code) :
    Conserves code e.rise := by
  obtain ⟨access, haccess, hcode⟩ := answer_bind.mp hcode
  obtain rfl := Except.ok.inj hcode
  refine .around (pop_shifts (r := .t0) rfl) (guardIndirect_track .t0)
    (pushFromMemory_shifts _ _ _ _ _) ?_
  rw [wordCount, hmatches.words_of_kind hshape haccess, hsizes.rise]
  simp [UInt32.sub_eq_add_neg]

theorem storeIndirect_conserves {kind : ValueKind} {item : StackItem}
    (hmatches : Matches ctx env i stack) (hshape : KindShape env i kind item)
    (hsizes : e.Sizes [item.size, 4] []) (hcode : storeIndirect ctx i e kind = .ok code) :
    Conserves code e.rise := by
  obtain ⟨access, haccess, hcode⟩ := answer_bind.mp hcode
  obtain ⟨value, -, hcode⟩ := answer_bind.mp hcode
  obtain rfl := Except.ok.inj hcode
  have hload : Shifts [Instr.lw .t0 value .sp] 0 := shifts_of_movesAll rfl
  rw [List.append_assoc]
  refine .around hload (guardIndirect_track .t0)
    ((popToMemory_shifts _ _ _ _).append (drop_shifts 4)) ?_
  rw [wordCount, hmatches.words_of_kind hshape haccess, hsizes.rise]
  simp [UInt32.ofNat_add]

theorem initObject_conserves (hsizes : e.Sizes [4] []) (hcode : initObject ctx i = .ok code) :
    Conserves code e.rise := by
  obtain ⟨access, -, hcode⟩ := answer_bind.mp hcode
  obtain rfl := Except.ok.inj hcode
  refine .around (pop_shifts (r := .t0) rfl) (guardIndirect_track .t0) (zeroFrom_shifts _ _ _ _ _) ?_
  rw [hsizes.rise]
  rfl

theorem loadLength_conserves (hsizes : e.Sizes [4] [4]) : Conserves (loadLength ctx i) e.rise := by
  have hpush : Shifts ([Instr.lw .t6 (Int32.ofNat ctx.options.layout.arrayLength) .t0] ++
      Instr.push .t6) (-4) := shifts_of_movesAll rfl
  unfold loadLength
  rw [List.append_assoc]
  refine .around (pop_shifts (r := .t0) rfl) (nullCheck_track .t0) hpush ?_
  rw [hsizes.rise]
  rfl

theorem loadElement_conserves {kind : ValueKind} {item : StackItem}
    (hmatches : Matches ctx env i stack) (hshape : KindShape env i kind item)
    (hsizes : e.Sizes [4, 4] [item.size]) (hcode : loadElement ctx i kind = .ok code) :
    Conserves code e.rise := by
  obtain ⟨access, haccess, hcode⟩ := answer_bind.mp hcode
  obtain ⟨header, -, hcode⟩ := answer_bind.mp hcode
  obtain rfl := Except.ok.inj hcode
  have hpops : Shifts (Instr.pop .t2 ++ Instr.pop .t0) 8 := shifts_of_movesAll rfl
  refine .around hpops (elementBase_track rfl rfl _) (pushFromMemory_shifts _ _ _ _ _) ?_
  rw [wordCount, hmatches.words_of_kind hshape haccess, hsizes.rise]
  simp [UInt32.sub_eq_add_neg]

theorem loadElementAddress_conserves (hsizes : e.Sizes [4, 4] [4])
    (hcode : loadElementAddress ctx i = .ok code) : Conserves code e.rise := by
  obtain ⟨access, -, hcode⟩ := answer_bind.mp hcode
  obtain ⟨header, -, hcode⟩ := answer_bind.mp hcode
  obtain rfl := Except.ok.inj hcode
  have hpops : Shifts (Instr.pop .t2 ++ Instr.pop .t0) 8 := shifts_of_movesAll rfl
  have hpush : Shifts ([Instr.addiu .t0 .t0 header] ++ Instr.push .t0) (-4) := shifts_of_movesAll rfl
  rw [List.append_assoc]
  refine .around hpops (elementBase_track rfl rfl _) hpush ?_
  rw [hsizes.rise]
  rfl

theorem storeElement_conserves {kind : ValueKind} {item : StackItem}
    (hmatches : Matches ctx env i stack) (hshape : KindShape env i kind item)
    (hsizes : e.Sizes [item.size, 4, 4] []) (hcode : storeElement ctx i e kind = .ok code) :
    Conserves code e.rise := by
  obtain ⟨access, haccess, hcode⟩ := answer_bind.mp hcode
  obtain ⟨header, -, hcode⟩ := answer_bind.mp hcode
  obtain ⟨value, -, hcode⟩ := answer_bind.mp hcode
  obtain rfl := Except.ok.inj hcode
  have hloads : Shifts [Instr.lw .t0 value .sp, .lw .t2 (value - 4) .sp] 0 := shifts_of_movesAll rfl
  rw [List.append_assoc]
  refine .around hloads (elementBase_track rfl rfl _)
    ((popToMemory_shifts _ _ _ _).append (drop_shifts 8)) ?_
  rw [wordCount, hmatches.words_of_kind hshape haccess, hsizes.rise]
  simp [UInt32.ofNat_add]

/-! ## Calls -/

theorem afterCall_shifts (ret args : Nat) : Shifts (afterCall ret args) (UInt32.ofNat args) := by
  unfold afterCall
  split
  · rename_i hzero
    rw [hzero]
    exact shifts_nil
  · split
    · exact drop_shifts args
    · have hall := ((pop_shifts (r := .t0) rfl).append (drop_shifts args)).append (push_shifts .t0)
      rwa [UInt32.add_comm 4, UInt32.add_assoc, show (4 : UInt32) + -4 = 0 from rfl,
        UInt32.add_zero] at hall
    · have hpops : Shifts (Instr.pop .t0 ++ Instr.pop .t1) 8 := shifts_of_movesAll rfl
      have hpushes : Shifts (Instr.push .t1 ++ Instr.push .t0) (-8) := shifts_of_movesAll rfl
      have hall := (hpops.append (drop_shifts args)).append hpushes
      rw [UInt32.add_comm 8, UInt32.add_assoc, show (8 : UInt32) + -8 = 0 from rfl,
        UInt32.add_zero] at hall
      simpa only [List.append_assoc] using hall
    · have hslides := shifts_flatMap (List.range (ret / 4)).reverse fun k _ =>
        (shifts_of_movesAll rfl : Shifts (slideResult args k) 0)
      rw [UInt32.mul_zero] at hslides
      exact hslides.after (drop_shifts args)

/-- Reserve the return slot, call, and trade `args` bytes of arguments for the result. -/
theorem callThrough_shifts {callCode : List Instr} (hcall : Shifts callCode 0) (ret args : Nat) :
    Shifts (Instr.reserve ret ++ callCode ++ afterCall ret args)
      (-UInt32.ofNat ret + UInt32.ofNat args) :=
  ((reserve_shifts ret).before hcall).append (afterCall_shifts ret args)

theorem call_shifts (hcode : call ctx i e = .ok code) : Shifts code e.rise := by
  obtain ⟨m, -, hcode⟩ := answer_bind.mp hcode
  obtain rfl := Except.ok.inj hcode
  rw [← e.rise_eq]
  exact callThrough_shifts (callSymbol_shifts m.symbol) _ _

theorem callIndirect_shifts {rest : List Nat} (hpopped : e.popped.map StackItem.size = 4 :: rest) :
    Shifts (callIndirect e) e.rise := by
  have hsizes : e.Sizes (4 :: rest) (e.pushed.map StackItem.size) := ⟨hpopped, rfl⟩
  have hargs : UInt32.ofNat e.bytesBelow = UInt32.ofNat rest.sum := by
    rw [hsizes.bytesBelow, UInt32.ofNat_mod_size]
  have hrise : 4 + (-UInt32.ofNat e.pushedBytes + UInt32.ofNat e.bytesBelow) = e.rise := by
    rw [← e.rise_eq, hargs, hsizes.ofNat_poppedBytes, List.sum_cons, UInt32.ofNat_add, ← UInt32.add_assoc,
      ← UInt32.add_assoc, UInt32.add_comm 4]
    rfl
  unfold callIndirect
  rw [← hrise]
  have hcall := (pop_shifts (r := .t9) rfl).append
    (callThrough_shifts (callReg_shifts .t9) e.pushedBytes e.bytesBelow)
  simpa only [List.append_assoc] using hcall

variable (ctx i) in
theorem dispatch_track (slot : Nat) {c d : UInt32} :
    ∃ search, (∀ ret, dispatch ctx i slot ret =
        search ++ Instr.reserve ret ++ Instr.callReg .t9) ∧
      Track (levels c d) (some c) search (some c) := by
  refine ⟨_, fun _ => rfl, ?_⟩
  have hscan := levels_inside c d ctx i "Scan" 1
  have hnext := levels_inside c d ctx i "Next" 2
  have hfound := levels_inside c d ctx i "Found" 3
  have hfirst : Track (levels c d) (some c)
      [Instr.lw .t0 (Int32.ofNat ctx.options.layout.typePointer) .t0,
       .lw .t0 (Int32.ofNat ctx.options.layout.typeMethodTable) .t0,
       .li .t5 (Int32.ofNat slot),
       .label (ctx.inside i "Scan" 1),
       .lw .t4 0 .t0] (some c) :=
    .keep rfl (.keep rfl (.keep rfl (.label rfl rfl (.keep rfl .nil))))
  have hbase : Shifts [Instr.lw .t0 4 .t0] 0 := shifts_of_movesAll rfl
  have hhalt : Track (levels c d) (some c)
      (Instr.pushImm HaltReason.missingVirtualMethod.code.toInt32) (some (c + -4)) :=
    (pushImm_shifts _).track rfl
  have hskip : Track (levels c d) none
      [Instr.label (ctx.inside i "Next" 2), .addiu .t0 .t0 8] (some c) :=
    .land rfl (.keep rfl .nil)
  have htarget : Track (levels c d) none
      [Instr.label (ctx.inside i "Found" 3), .lw .t9 4 .t0] (some c) :=
    .land rfl (.keep rfl .nil)
  have hsearch := (((hfirst.append (beq_track .t4 .t5 hfound)).append
    (bne_track .t4 .zero hnext)).append hbase.keep).append (bne_track .t0 .zero hscan)
  exact ((((hsearch.append hhalt).append (stop_track rfl)).append hskip).append
    (jump_track hscan)).append htarget

variable (ctx i e) in
theorem receiver_conserves (r : Reg) (this : Int32) {search callCode : List Instr}
    (hr : r.sparesStack = true) (hsearch : Track (levels 0 e.rise) (some 0) search (some 0))
    (hcall : Shifts callCode 0) :
    Conserves ([Instr.lw r this .sp] ++ (nullCheck ctx i r ++ search) ++
      (Instr.reserve e.pushedBytes ++ callCode ++ afterCall e.pushedBytes e.poppedBytes))
      e.rise := by
  have hload : Shifts [Instr.lw r this .sp] 0 := by
    refine shifts_of_movesAll ?_
    simp [movesAll, StackUse.moves?, Instr.moves?, Instr.lw, hr]
  refine .around hload ((nullCheck_track r).append hsearch) (callThrough_shifts hcall _ _) ?_
  rw [UInt32.zero_add, e.rise_eq]

theorem callVirtual_conserves (hcode : callVirtual ctx i e = .ok code) : Conserves code e.rise := by
  obtain ⟨⟨m, declaring⟩, -, hcode⟩ := answer_bind.mp hcode
  obtain ⟨this, -, hcode⟩ := answer_bind.mp hcode
  obtain rfl := Except.ok.inj hcode
  split
  · have hall := receiver_conserves ctx i e .t9 this rfl .nil (callReg_shifts .t9)
    simpa only [List.append_assoc, List.nil_append] using hall
  · split
    · have hall := receiver_conserves ctx i e .t0 this rfl .nil (callSymbol_shifts m.symbol)
      simpa only [List.append_assoc, List.nil_append] using hall
    · obtain ⟨search, hdispatch, htrack⟩ := dispatch_track ctx i m.id.val (c := 0) (d := e.rise)
      have hall := receiver_conserves ctx i e .t0 this rfl htrack (callReg_shifts .t9)
      rw [hdispatch]
      simpa only [List.append_assoc] using hall

/-! ## Allocations and type tests -/

theorem checkAllocation_track {c d : UInt32} :
    Track (levels c d) (some c) (checkAllocation ctx i) (some c) := by
  have hallocated := levels_inside c d ctx i "Allocated" 0
  have hhalt : Track (levels c d) (some c)
      (Instr.pushImm HaltReason.outOfMemory.code.toInt32) (some (c + -4)) :=
    (pushImm_shifts _).track rfl
  exact (((bne_track .t0 .zero hallocated).append hhalt).append (stop_track rfl)).append
    (land_track hallocated)

variable (ctx i) in
/-- An allocation leaves the arguments below the type descriptor behind. -/
theorem allocate_around {allocator : Intrinsic} (descriptor : Symbol) {after : List Instr}
    {r d : UInt32} (hreturn : allocator.returnBytes = 4) (hafter : Shifts after r)
    (hsum : -4 + UInt32.ofNat allocator.argBytes + r = d) :
    Conserves (allocate ctx i allocator descriptor ++ after) d := by
  have hbefore := ((((pushAddr_shifts descriptor).append
    (reserve_shifts allocator.returnBytes)).append (callSymbol_shifts allocator.symbol)).append
    (pop_shifts (r := .t0) rfl)).append (drop_shifts allocator.argBytes)
  rw [hreturn, show (-4 : UInt32) + -UInt32.ofNat 4 + 0 + 4 = -4 from rfl] at hbefore
  unfold allocate
  rw [hreturn]
  exact .around hbefore checkAllocation_track hafter hsum

theorem newObject_conserves (hmatches : Matches ctx env i stack)
    (hexchanges : Exchanges env i stack e .newObject) (hcode : newObject ctx i = .ok code) :
    Conserves code e.rise := by
  obtain ⟨ctor, declaring, hctor, hdeclaring, hsizes⟩ := hexchanges
  obtain ⟨⟨ctor', declaring'⟩, hmethod, hcode⟩ := answer_bind.mp hcode
  obtain ⟨ctor'', hctor', hmethod⟩ := answer_bind.mp hmethod
  obtain ⟨declaring'', hdeclaring', hmethod⟩ := answer_bind.mp hmethod
  obtain ⟨rfl, rfl⟩ := Prod.mk.inj (Except.ok.inj hmethod)
  rw [hmatches.tables, hctor] at hctor'
  obtain rfl := Except.ok.inj hctor'
  rw [hmatches.tables, hdeclaring] at hdeclaring'
  obtain rfl := Except.ok.inj hdeclaring'
  dsimp only at hcode
  split at hcode
  · rename_i hdelegate
    rw [if_pos hdelegate, hmatches.pointerSize] at hsizes
    obtain rfl := Except.ok.inj hcode
    rw [hsizes.rise]
    exact .of_shifts (shifts_of_movesAll rfl)
  · rename_i hdelegate
    rw [if_neg hdelegate, hmatches.pointerSize] at hsizes
    obtain ⟨items, hshapes, hsizes⟩ := hsizes
    obtain ⟨params, hparams, hcode⟩ := answer_bind.mp hcode
    obtain ⟨_, -, hcode⟩ := answer_bind.mp hcode
    obtain rfl := Except.ok.inj hcode
    have hbytes := hmatches.paramBytes_eq hshapes hparams
    have hslides := shifts_flatMap (List.range (params / 4)) fun k _ =>
      (shifts_of_movesAll rfl : Shifts (slideArgument k) 0)
    rw [UInt32.mul_zero] at hslides
    have hstores : Shifts [Instr.sw .t0 (Int32.ofNat params) .sp,
        .sw .t0 (Int32.ofNat params + 4) .sp] 0 := shifts_of_movesAll rfl
    have hafter := ((((reserve_shifts 8).before hslides).before hstores).before
      (callSymbol_shifts ctor.symbol)).append (drop_shifts (params + 4))
    have hsum : -4 + UInt32.ofNat Intrinsic.newObject.argBytes +
        (-UInt32.ofNat 8 + UInt32.ofNat (params + 4)) = e.rise := by
      rw [hsizes.rise, hbytes, UInt32.ofNat_add, ofNat_countBytes, ← totalBytes_reverse, totalBytes_eq_sum]
      generalize UInt32.ofNat (items.reverse.map StackItem.size).sum = n
      show -4 + 4 + (-8 + (n + 4)) = n - 4
      grind
    have hall := allocate_around ctx i declaring.symbol rfl hafter hsum
    simpa only [construct, List.append_assoc] using hall

theorem newArray_conserves (hsizes : e.Sizes [4] [4]) (hcode : newArray ctx i = .ok code) :
    Conserves code e.rise := by
  obtain ⟨t, -, hcode⟩ := answer_bind.mp hcode
  obtain rfl := Except.ok.inj hcode
  refine allocate_around ctx i t.symbol rfl (push_shifts .t0) ?_
  rw [hsizes.rise]
  rfl

theorem typeTest_conserves {isCast : Bool} (hsizes : e.Sizes [4] [4])
    (hcode : typeTest ctx i isCast = .ok code) : Conserves code e.rise := by
  obtain ⟨t, -, hcode⟩ := answer_bind.mp hcode
  obtain rfl := Except.ok.inj hcode
  rw [hsizes.rise]
  show Conserves _ 0
  have hscan := levels_inside 4 0 ctx i "Scan" 0
  have hfailed := levels_inside 4 0 ctx i "Failed" 1
  have hdone := levels_inside 4 0 ctx i "Done" 2
  have hpop : Track (levels 4 0) (some 0) (Instr.pop .t0) (some 4) :=
    (pop_shifts (r := .t0) rfl).track rfl
  have hpush : Track (levels 4 0) (some 4) (Instr.push .t0) (some 0) := (push_shifts .t0).track rfl
  have hloads : Track (levels 4 0) (some 4)
      [Instr.lw .t4 (Int32.ofNat ctx.options.layout.typePointer) .t0,
       .la .t5 t.symbol,
       .label (ctx.inside i "Scan" 0)] (some 4) :=
    .keep rfl (.keep rfl (.label rfl rfl .nil))
  have hbase : Shifts [Instr.lw .t4 (Int32.ofNat ctx.options.layout.typeBase) .t4] 0 :=
    shifts_of_movesAll rfl
  have hresult : Track (levels 4 0) (some 4)
      ((if isCast then throwHere .throwInvalidCast else [Instr.move .t0 .zero]) ++
        [Instr.label (ctx.inside i "Done" 2)]) (some 4) := by
    cases isCast with
    | false => exact .keep rfl (.label rfl rfl .nil)
    | true => exact (throwHere_track rfl).append (land_track hdone)
  have hsearch := ((((hpop.append (beq_track .t0 .zero hdone)).append hloads).append
    (beq_track .t4 .zero hfailed)).append (beq_track .t4 .t5 hdone)).append hbase.keep
  have hall := (((hsearch.append (jump_track hscan)).append (land_track hfailed)).append
    hresult).append hpush
  refine .of_levels (c := 4) ?_
  simpa only [List.append_assoc] using hall

/-! ## All templates -/

/-- A template adds to the stack pointer what the simulation popped less what it pushed. -/
theorem emit_conserves (hmatches : Matches ctx env i stack)
    (hexchanges : Exchanges env i stack e i.op.operation) (hpseudo : i.op.isPseudo = false)
    (hthrow : i.op ≠ .throw) (hfailure : (emit ctx i e).failure = none) :
    Conserves (emit ctx i e).code e.rise := by
  have hpush : ∀ {n : Nat}, e.Sizes [] [n] → -UInt32.ofNat n = e.rise := by
    intro n hsizes
    rw [hsizes.rise]
    simp
  have hpop : ∀ {n : Nat}, e.Sizes [n] [] → UInt32.ofNat n = e.rise := by
    intro n hsizes
    rw [hsizes.rise]
    simp
  obtain ⟨hstart, hend, hnothrow⟩ := operation_of_returning hpseudo hthrow
  revert hexchanges hfailure
  unfold emit Exchanges
  rw [hmatches.pointerSize]
  cases hop : i.op.operation with
  | nop =>
    intro hsizes _
    rw [hsizes.rise]
    exact .of_shifts (shifts_of_movesAll rfl)
  | methodStart => exact absurd hop hstart
  | methodEnd => exact absurd hop hend
  | throw => exact absurd hop hnothrow
  | ret =>
    intro hsizes hfailure
    refine .ofExcept hfailure fun _ => ret_conserves (List.map_eq_nil_iff.mp hsizes.pushed) ?_
    rw [Effect.poppedBytes, dvd_countBytes, hsizes.totalPopped]
    cases hreturn : env.frame.returnItem with
    | none => exact Nat.dvd_zero 4
    | some item => simpa using hmatches.items item (.result hop hreturn)
  | loadArg =>
    rintro ⟨slot, hselects, hsizes⟩ hfailure
    exact .ofExcept_shifts hfailure (hpush hsizes) fun _ hcode =>
      loadSlot_shifts hcode fun _ => hmatches.slot_arg (.inl hop) hselects
  | loadLocal =>
    rintro ⟨slot, hselects, hsizes⟩ hfailure
    exact .ofExcept_shifts hfailure (hpush hsizes) fun _ hcode =>
      loadSlot_shifts hcode fun _ => hmatches.slot_local (.inl hop) hselects
  | storeArg =>
    rintro ⟨slot, hselects, hsizes⟩ hfailure
    exact .ofExcept_shifts hfailure (hpop hsizes) fun _ hcode =>
      storeSlot_shifts hcode fun _ => hmatches.slot_arg (.inr hop) hselects
  | storeLocal =>
    rintro ⟨slot, hselects, hsizes⟩ hfailure
    exact .ofExcept_shifts hfailure (hpop hsizes) fun _ hcode =>
      storeSlot_shifts hcode fun _ => hmatches.slot_local (.inr hop) hselects
  | loadArgAddress | loadLocalAddress =>
    intro hsizes hfailure
    exact .ofExcept_shifts hfailure (hpush hsizes) fun _ => slotAddress_shifts
  | loadConst =>
    intro hsizes hfailure
    exact .ofExcept_shifts hfailure (hpush hsizes) fun _ => loadConst_shifts
  | loadNull =>
    intro hsizes _
    rw [← hpush hsizes]
    exact .of_shifts (pushImm_shifts 0)
  | loadString | loadToken | loadFunction =>
    intro hsizes hfailure
    exact .ofExcept_shifts hfailure (hpush hsizes) fun _ => loadSymbol_shifts
  | sizeOf =>
    intro hsizes hfailure
    exact .ofExcept_shifts hfailure (hpush hsizes) fun _ => sizeOf_shifts
  | dup =>
    rintro ⟨top, rest, rfl, hpopped, hpushed⟩ hfailure
    have hsizes : e.Sizes [] [top.size] := ⟨by rw [hpopped]; rfl, by rw [hpushed]; rfl⟩
    exact .ofExcept_shifts hfailure (hpush hsizes) fun _ =>
      dup_shifts hpushed (hmatches.items top (.top hop rfl))
  | pop =>
    rintro ⟨top, rest, rfl, hpopped, hpushed⟩ _
    have hsizes : e.Sizes [top.size] [] := ⟨by rw [hpopped]; rfl, by rw [hpushed]; rfl⟩
    rw [← hpop hsizes]
    exact .of_shifts (popItem_shifts hpopped)
  | binary op =>
    rintro ⟨n, hn, -, hsizes⟩ hfailure
    exact .ofExcept hfailure fun _ => binary_conserves hn hsizes
  | unary op =>
    rintro ⟨n, hn, hsizes⟩ _
    exact unary_conserves op hn hsizes
  | shift op =>
    rintro ⟨n, count, hn, hcount, hsizes⟩ _
    exact shift_conserves op hn hcount hsizes
  | compare op =>
    rintro ⟨n, hn, hsizes⟩ _
    exact compare_conserves op hn hsizes
  | convert target =>
    cases target with
    | none => exact fun hexchanges => hexchanges.elim
    | some target =>
      rintro ⟨n, hn, hsizes⟩ _
      show Conserves (convertTo ctx.options.pointerSize (e.operand 0).size target) e.rise
      rw [hmatches.options]
      exact convert_conserves hn hsizes
  | branch condition =>
    intro hexchanges hfailure
    refine .ofExcept hfailure fun code hcode => ?_
    obtain ⟨t, -, hcode⟩ := answer_bind.mp hcode
    obtain ⟨target, -, hcode⟩ := answer_bind.mp hcode
    obtain rfl := Except.ok.inj hcode
    exact branchTo_conserves target hexchanges
  | switch =>
    intro hsizes hfailure
    exact switch_conserves hsizes hfailure
  | leave =>
    rintro ⟨-, hpushed⟩ hfailure
    exact .ofExcept hfailure fun _ => leave_conserves hpushed
  | loadField =>
    rintro ⟨item, hshape, hsizes⟩ hfailure
    exact .ofExcept hfailure fun _ => loadField_conserves hmatches hshape hsizes
  | loadFieldAddress =>
    intro hsizes hfailure
    exact .ofExcept hfailure fun _ => loadFieldAddress_conserves hsizes
  | storeField =>
    rintro ⟨item, hshape, hsizes⟩ hfailure
    exact .ofExcept hfailure fun _ => storeField_conserves hmatches hshape hsizes
  | loadStatic =>
    rintro ⟨item, hshape, hsizes⟩ hfailure
    exact .ofExcept_shifts hfailure (hpush hsizes) fun _ => loadStatic_shifts hmatches hshape
  | loadStaticAddress =>
    intro hsizes hfailure
    exact .ofExcept_shifts hfailure (hpush hsizes) fun _ => loadStaticAddress_shifts
  | storeStatic =>
    rintro ⟨item, hshape, hsizes⟩ hfailure
    exact .ofExcept_shifts hfailure (hpop hsizes) fun _ => storeStatic_shifts hmatches hshape
  | loadIndirect kind =>
    rintro ⟨item, hshape, hsizes⟩ hfailure
    exact .ofExcept hfailure fun _ => loadIndirect_conserves hmatches hshape hsizes
  | storeIndirect kind =>
    rintro ⟨item, hshape, hsizes⟩ hfailure
    exact .ofExcept hfailure fun _ => storeIndirect_conserves hmatches hshape hsizes
  | loadLength =>
    intro hsizes _
    exact loadLength_conserves hsizes
  | loadElement kind =>
    rintro ⟨item, hshape, hsizes⟩ hfailure
    exact .ofExcept hfailure fun _ => loadElement_conserves hmatches hshape hsizes
  | loadElementAddress =>
    intro hsizes hfailure
    exact .ofExcept hfailure fun _ => loadElementAddress_conserves hsizes
  | storeElement kind =>
    rintro ⟨item, hshape, hsizes⟩ hfailure
    exact .ofExcept hfailure fun _ => storeElement_conserves hmatches hshape hsizes
  | call =>
    intro _ hfailure
    exact .ofExcept_shifts hfailure rfl fun _ => call_shifts
  | callIndirect =>
    rintro ⟨m, -, items, result, -, -, hsizes⟩ _
    exact .of_shifts (callIndirect_shifts hsizes.popped)
  | callVirtual =>
    intro _ hfailure
    exact .ofExcept hfailure fun _ => callVirtual_conserves
  | newObject =>
    intro hexchanges hfailure
    refine .ofExcept hfailure fun _ => newObject_conserves hmatches ?_
    unfold Exchanges
    rwa [hmatches.pointerSize]
  | newArray =>
    intro hsizes hfailure
    exact .ofExcept hfailure fun _ => newArray_conserves hsizes
  | isInstance | castClass =>
    intro hsizes hfailure
    exact .ofExcept hfailure fun _ => typeTest_conserves hsizes
  | initObject =>
    intro hsizes hfailure
    exact .ofExcept hfailure fun _ => initObject_conserves hsizes

end Stencil.Mips
