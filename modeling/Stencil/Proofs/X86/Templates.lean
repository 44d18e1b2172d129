import Stencil.Proofs.Height.Words
import Stencil.Proofs.X86.Balance

/-!
# Loads, stores, calls and allocations on x86

The rest of the templates, and all of them together: the template of an instruction adds to the
stack pointer what the simulation popped less what it pushed (`emit_conserves`).
-/

namespace Stencil.X86

open Stateful

variable {ctx : EmitContext} {env : SimEnv} {i : Instruction} {stack : OperandStack} {e : Effect}
  {code : List Instr}

/-! ## Frame slots, constants and shuffles -/

theorem loadSlot_shifts {isArg : Bool} {slot : FrameSlot} (hcode : loadSlot ctx i isArg = .ok code)
    (hslot : ∀ slot', ctx.slot i isArg = .ok slot' →
      slot' = slot ∧ 4 * slot.item.words = slot.item.size) :
    Shifts code (-UInt32.ofNat slot.item.size) := by
  obtain ⟨slot', hslot', hcode⟩ := answer_bind.mp hcode
  obtain rfl := Except.ok.inj hcode
  obtain ⟨rfl, hwords⟩ := hslot slot' hslot'
  have hpushes := shifts_map (I := Instr) (List.range slot'.item.words).reverse (d := -4)
    (f := fun k => .pushMem ((Mem.based .ebp slot'.offset).word k)) fun k => shifts_of_movesAll rfl
  rwa [List.length_reverse, List.length_range, ofNat_mul_neg_four, hwords] at hpushes

theorem storeSlot_shifts {isArg : Bool} {slot : FrameSlot}
    (hcode : storeSlot ctx i isArg = .ok code)
    (hslot : ∀ slot', ctx.slot i isArg = .ok slot' →
      slot' = slot ∧ 4 * slot.item.words = slot.item.size) :
    Shifts code (UInt32.ofNat slot.item.size) := by
  obtain ⟨slot', hslot', hcode⟩ := answer_bind.mp hcode
  obtain rfl := Except.ok.inj hcode
  obtain ⟨rfl, hwords⟩ := hslot slot' hslot'
  have hpops := shifts_map (I := Instr) (List.range slot'.item.words) (d := 4)
    (f := fun k => .popMem ((Mem.based .ebp slot'.offset).word k)) fun k => shifts_of_movesAll rfl
  rwa [List.length_range, ofNat_mul_four, hwords] at hpops

theorem slotAddress_shifts {isArg : Bool} (hcode : slotAddress ctx i isArg = .ok code) :
    Shifts code (-4) := by
  obtain ⟨slot, -, hcode⟩ := answer_bind.mp hcode
  obtain rfl := Except.ok.inj hcode
  exact shifts_of_movesAll rfl

theorem loadConst_shifts (hcode : loadConst i = .ok code) :
    Shifts code (-UInt32.ofNat (if i.op = .ldcI8 then 8 else 4)) := by
  unfold loadConst at hcode
  split at hcode
  · rename_i hop
    obtain ⟨value, -, rfl⟩ := answer_map.mp hcode
    rw [if_pos hop]
    exact shifts_of_movesAll rfl
  · rename_i hop
    obtain ⟨value, -, rfl⟩ := answer_map.mp hcode
    rw [if_neg hop]
    exact shifts_of_movesAll rfl

theorem loadSymbol_shifts {symbol : Except CompileError Symbol}
    (hcode : loadSymbol symbol = .ok code) : Shifts code (-4) := by
  obtain ⟨s, -, rfl⟩ := answer_map.mp hcode
  exact shifts_of_movesAll rfl

theorem sizeOf_shifts (hcode : sizeOf ctx i = .ok code) : Shifts code (-4) := by
  obtain ⟨access, -, rfl⟩ := answer_map.mp hcode
  exact shifts_of_movesAll rfl

theorem dup_shifts {top : StackItem} (hpushed : e.pushed = [top.stored]) (hwords : 4 ∣ top.size) :
    Shifts (dup e) (-UInt32.ofNat top.size) := by
  have hresult : e.result.size = top.size := by
    rw [Effect.result, hpushed]
    rfl
  unfold dup
  rw [hresult]
  have hpushes := shifts_map (I := Instr) (List.range (top.size / 4)) (d := -4)
    (f := fun _ => .pushMem (.based .esp (Int32.ofNat top.size - 4))) fun k => shifts_of_movesAll rfl
  rwa [List.map_const', List.length_range, ofNat_mul_neg_four, Nat.mul_div_cancel' hwords] at hpushes

theorem pop_shifts {top : StackItem} (hpopped : e.popped = [top]) :
    Shifts (pop e) (UInt32.ofNat top.size) := by
  have hoperand : e.operand 0 = top := by
    rw [Effect.operand, hpopped]
    rfl
  unfold pop
  rw [hoperand]
  refine Shifts.after ?_ (drop_shifts top.size)
  split
  · exact callSymbol_shifts _
  · exact shifts_nil

/-! ## Fields, indirect accesses and arrays -/

theorem loadField_conserves {item : StackItem} (hmatches : Matches ctx env i stack)
    (hshape : FieldShape env i item) (hsizes : e.Sizes [4] [item.size])
    (hcode : loadField ctx i = .ok code) : Conserves code e.rise := by
  obtain ⟨⟨field, access⟩, haccess, hcode⟩ := answer_bind.mp hcode
  obtain rfl := Except.ok.inj hcode
  have hpop : Shifts [Instr.popReg .eax] 4 := shifts_of_movesAll rfl
  refine .around hpop (nullCheck_track .eax) (pushFromMemory_shifts _ _ _) ?_
  rw [wordCount, hmatches.words_of_field hshape haccess, hsizes.rise]
  simp [UInt32.sub_eq_add_neg]

theorem loadFieldAddress_conserves (hsizes : e.Sizes [4] [4])
    (hcode : loadFieldAddress ctx i = .ok code) : Conserves code e.rise := by
  obtain ⟨⟨field, access⟩, -, hcode⟩ := answer_bind.mp hcode
  obtain rfl := Except.ok.inj hcode
  have hpop : Shifts [Instr.popReg .eax] 4 := shifts_of_movesAll rfl
  have hpush : Shifts [Instr.lea .eax (.based .eax (Int32.ofNat field.offset)), .pushReg .eax] (-4) :=
    shifts_of_movesAll rfl
  refine .around hpop (nullCheck_track .eax) hpush ?_
  rw [hsizes.rise]
  rfl

theorem storeField_conserves {item : StackItem} (hmatches : Matches ctx env i stack)
    (hshape : FieldShape env i item) (hsizes : e.Sizes [item.size, 4] [])
    (hcode : storeField ctx i e = .ok code) : Conserves code e.rise := by
  obtain ⟨⟨field, access⟩, haccess, hcode⟩ := answer_bind.mp hcode
  obtain rfl := Except.ok.inj hcode
  have hload : Shifts [Instr.load .eax (.based .esp (Int32.ofNat (e.operand 0).size))] 0 :=
    shifts_of_movesAll rfl
  rw [List.append_assoc]
  refine .around hload (nullCheck_track .eax) ((popToMemory_shifts _ _).append (drop_shifts 4)) ?_
  rw [wordCount, hmatches.words_of_field hshape haccess, hsizes.rise]
  simp [UInt32.ofNat_add]

theorem loadStatic_shifts {item : StackItem} (hmatches : Matches ctx env i stack)
    (hshape : FieldShape env i item) (hcode : loadStatic ctx i = .ok code) :
    Shifts code (-UInt32.ofNat item.size) := by
  obtain ⟨⟨field, access⟩, haccess, hcode⟩ := answer_bind.mp hcode
  obtain rfl := Except.ok.inj hcode
  rw [← hmatches.words_of_field hshape haccess]
  exact pushFromMemory_shifts _ _ _

theorem loadStaticAddress_shifts (hcode : loadStaticAddress ctx i = .ok code) :
    Shifts code (-4) := by
  obtain ⟨⟨field, access⟩, -, hcode⟩ := answer_bind.mp hcode
  obtain rfl := Except.ok.inj hcode
  exact shifts_of_movesAll rfl

theorem storeStatic_shifts {item : StackItem} (hmatches : Matches ctx env i stack)
    (hshape : FieldShape env i item) (hcode : storeStatic ctx i = .ok code) :
    Shifts code (UInt32.ofNat item.size) := by
  obtain ⟨⟨field, access⟩, haccess, hcode⟩ := answer_bind.mp hcode
  obtain rfl := Except.ok.inj hcode
  rw [← hmatches.words_of_field hshape haccess]
  exact popToMemory_shifts _ _

theorem loadIndirect_conserves {kind : ValueKind} {item : StackItem}
    (hmatches : Matches ctx env i stack) (hshape : KindShape env i kind item)
    (hsizes : e.Sizes [4] [item.size]) (hcode : loadIndirect ctx i kind = .ok code) :
    Conserves code e.rise := by
  obtain ⟨access, haccess, hcode⟩ := answer_bind.mp hcode
  obtain rfl := Except.ok.inj hcode
  have hpop : Shifts [Instr.popReg .eax] 4 := shifts_of_movesAll rfl
  refine .around hpop (guardIndirect_track .eax) (pushFromMemory_shifts _ _ _) ?_
  rw [wordCount, hmatches.words_of_kind hshape haccess, hsizes.rise]
  simp [UInt32.sub_eq_add_neg]

theorem storeIndirect_conserves {kind : ValueKind} {item : StackItem}
    (hmatches : Matches ctx env i stack) (hshape : KindShape env i kind item)
    (hsizes : e.Sizes [item.size, 4] []) (hcode : storeIndirect ctx i e kind = .ok code) :
    Conserves code e.rise := by
  obtain ⟨access, haccess, hcode⟩ := answer_bind.mp hcode
  obtain rfl := Except.ok.inj hcode
  have hload : Shifts [Instr.load .eax (.based .esp (Int32.ofNat (e.operand 0).size))] 0 :=
    shifts_of_movesAll rfl
  rw [List.append_assoc]
  refine .around hload (guardIndirect_track .eax)
    ((popToMemory_shifts _ _).append (drop_shifts 4)) ?_
  rw [wordCount, hmatches.words_of_kind hshape haccess, hsizes.rise]
  simp [UInt32.ofNat_add]

theorem initObject_conserves (hsizes : e.Sizes [4] []) (hcode : initObject ctx i = .ok code) :
    Conserves code e.rise := by
  obtain ⟨access, -, hcode⟩ := answer_bind.mp hcode
  obtain rfl := Except.ok.inj hcode
  have hpop : Shifts [Instr.popReg .eax] 4 := shifts_of_movesAll rfl
  refine .around hpop (guardIndirect_track .eax) (zeroMemory_shifts _ _) ?_
  rw [hsizes.rise]
  rfl

theorem loadLength_conserves (hsizes : e.Sizes [4] [4]) : Conserves (loadLength ctx i) e.rise := by
  have hpop : Shifts [Instr.popReg .eax] 4 := shifts_of_movesAll rfl
  refine .around hpop (nullCheck_track .eax) (shifts_of_movesAll (d := -4) rfl) ?_
  rw [hsizes.rise]
  rfl

theorem loadElement_conserves {kind : ValueKind} {item : StackItem}
    (hmatches : Matches ctx env i stack) (hshape : KindShape env i kind item)
    (hsizes : e.Sizes [4, 4] [item.size]) (hcode : loadElement ctx i kind = .ok code) :
    Conserves code e.rise := by
  obtain ⟨access, haccess, hcode⟩ := answer_bind.mp hcode
  obtain rfl := Except.ok.inj hcode
  have hpops : Shifts [Instr.popReg .ebx, .popReg .eax] 8 := shifts_of_movesAll rfl
  refine .around hpops (elementBase_track rfl rfl _) (pushFromMemory_shifts _ _ _) ?_
  rw [wordCount, hmatches.words_of_kind hshape haccess, hsizes.rise]
  simp [UInt32.sub_eq_add_neg]

theorem loadElementAddress_conserves (hsizes : e.Sizes [4, 4] [4])
    (hcode : loadElementAddress ctx i = .ok code) : Conserves code e.rise := by
  obtain ⟨access, -, hcode⟩ := answer_bind.mp hcode
  obtain rfl := Except.ok.inj hcode
  have hpops : Shifts [Instr.popReg .ebx, .popReg .eax] 8 := shifts_of_movesAll rfl
  have hpush : Shifts [Instr.lea .eax (element ctx), .pushReg .eax] (-4) := shifts_of_movesAll rfl
  refine .around hpops (elementBase_track rfl rfl _) hpush ?_
  rw [hsizes.rise]
  rfl

theorem storeElement_conserves {kind : ValueKind} {item : StackItem}
    (hmatches : Matches ctx env i stack) (hshape : KindShape env i kind item)
    (hsizes : e.Sizes [item.size, 4, 4] []) (hcode : storeElement ctx i e kind = .ok code) :
    Conserves code e.rise := by
  obtain ⟨access, haccess, hcode⟩ := answer_bind.mp hcode
  obtain rfl := Except.ok.inj hcode
  have hloads : Shifts
      [Instr.load .eax (.based .esp (Int32.ofNat (e.operand 0).size + 4)),
        .load .ebx (.based .esp (Int32.ofNat (e.operand 0).size))] 0 := shifts_of_movesAll rfl
  rw [List.append_assoc]
  refine .around hloads (elementBase_track rfl rfl _)
    ((popToMemory_shifts _ _).append (drop_shifts 8)) ?_
  rw [wordCount, hmatches.words_of_kind hshape haccess, hsizes.rise]
  simp [UInt32.ofNat_add]

/-! ## Calls -/

theorem slideResult_shifts (args k : Nat) : Shifts (slideResult args k) 0 := shifts_of_movesAll rfl

theorem afterCall_shifts (ret args : Nat) : Shifts (afterCall ret args) (UInt32.ofNat args) := by
  unfold afterCall
  split
  · rename_i hzero
    rw [hzero]
    exact shifts_nil
  · split
    · exact drop_shifts args
    · have hpop : Shifts [Instr.popReg .eax] 4 := shifts_of_movesAll rfl
      have hpush : Shifts [Instr.pushReg .eax] (-4) := shifts_of_movesAll rfl
      have hall := (hpop.append (drop_shifts args)).append hpush
      rwa [UInt32.add_comm 4, UInt32.add_assoc, show (4 : UInt32) + -4 = 0 from rfl,
        UInt32.add_zero] at hall
    · have hpop : Shifts [Instr.popReg .eax, .popReg .edx] 8 := shifts_of_movesAll rfl
      have hpush : Shifts [Instr.pushReg .edx, .pushReg .eax] (-8) := shifts_of_movesAll rfl
      have hall := (hpop.append (drop_shifts args)).append hpush
      rwa [UInt32.add_comm 8, UInt32.add_assoc, show (8 : UInt32) + -8 = 0 from rfl,
        UInt32.add_zero] at hall
    · have hslides := shifts_flatMap (List.range (ret / 4)).reverse fun k _ =>
        slideResult_shifts args k
      rw [UInt32.mul_zero] at hslides
      exact hslides.after (drop_shifts args)

/-- Reserve the return slot, call, and trade `args` bytes of arguments for the result. -/
theorem callThrough_shifts {callCode : List Instr} (hcall : Shifts callCode 0) (ret args : Nat) :
    Shifts (Instr.reserve ret ++ callCode ++ afterCall ret args)
      (-UInt32.ofNat ret + UInt32.ofNat args) :=
  ((reserve_shifts ret).before hcall).append (afterCall_shifts ret args)

theorem call_shifts (hcode : call ctx i e = .ok code) : Shifts code e.rise := by
  obtain ⟨m, -, hcode⟩ := answer_bind.mp hcode
  obtain rfl := Except.ok.inj hcode
  rw [← e.rise_eq]
  exact callThrough_shifts (callSymbol_shifts m.symbol) _ _

theorem callIndirect_shifts {rest : List Nat} (hpopped : e.popped.map StackItem.size = 4 :: rest) :
    Shifts (callIndirect e) e.rise := by
  have hsizes : e.Sizes (4 :: rest) (e.pushed.map StackItem.size) := ⟨hpopped, rfl⟩
  have hargs : UInt32.ofNat e.bytesBelow = UInt32.ofNat rest.sum := by
    rw [hsizes.bytesBelow, UInt32.ofNat_mod_size]
  have hrise : 4 + (-UInt32.ofNat e.pushedBytes + UInt32.ofNat e.bytesBelow) = e.rise := by
    rw [← e.rise_eq, hargs, hsizes.ofNat_poppedBytes, List.sum_cons, UInt32.ofNat_add, ← UInt32.add_assoc,
      ← UInt32.add_assoc, UInt32.add_comm 4]
    rfl
  unfold callIndirect
  rw [← hrise]
  have hpop : Shifts [Instr.popReg .esi] 4 := shifts_of_movesAll rfl
  have hcall := hpop.append (callThrough_shifts (callReg_shifts .esi) e.pushedBytes e.bytesBelow)
  simpa only [List.append_assoc] using hcall

variable (ctx i) in
theorem dispatch_track (slot : Nat) {c d : UInt32} :
    ∃ search, (∀ ret, dispatch ctx i slot ret =
        search ++ Instr.reserve ret ++ [Instr.callReg .esi]) ∧
      Track (levels c d) (some c) search (some c) :=
  ⟨_, fun _ => rfl, .keep rfl (.keep rfl (.label rfl rfl (.keep rfl (.keep rfl (track_jcc rfl
    (.keep rfl (track_jcc rfl (.keep rfl (.keep rfl (track_jcc rfl (.move rfl (track_stop rfl
    (.land rfl (.keep rfl (track_jump rfl (.land rfl (.keep rfl .nil)))))))))))))))))⟩

variable (ctx i e) in
theorem receiver_conserves (r : Reg) (this : Mem) {search callCode : List Instr}
    (hr : r.sparesStack = true) (hsearch : Track (levels 0 e.rise) (some 0) search (some 0))
    (hcall : Shifts callCode 0) :
    Conserves ([Instr.load r this] ++ (nullCheck ctx i r ++ search) ++
      (Instr.reserve e.pushedBytes ++ callCode ++ afterCall e.pushedBytes e.poppedBytes))
      e.rise := by
  have hload : Shifts [Instr.load r this] 0 := by
    have hr' : Operand.sparesStack (.reg r) = true := hr
    refine shifts_of_movesAll ?_
    simp [movesAll, StackUse.moves?, Instr.moves?, Instr.load, hr']
  refine .around hload ((nullCheck_track r).append hsearch) (callThrough_shifts hcall _ _) ?_
  rw [UInt32.zero_add, e.rise_eq]

theorem callVirtual_conserves (hcode : callVirtual ctx i e = .ok code) : Conserves code e.rise := by
  obtain ⟨⟨m, declaring⟩, -, hcode⟩ := answer_bind.mp hcode
  obtain rfl := Except.ok.inj hcode
  generalize Mem.based .esp (Int32.ofNat e.poppedBytes - Int32.ofNat ctx.options.pointerSize) = this
  split
  · have hall := receiver_conserves ctx i e .esi this rfl .nil
      (callReg_shifts .esi)
    simpa only [List.append_assoc, List.nil_append] using hall
  · split
    · have hall := receiver_conserves ctx i e .eax this rfl .nil
        (callSymbol_shifts m.symbol)
      simpa only [List.append_assoc, List.nil_append] using hall
    · obtain ⟨search, hdispatch, htrack⟩ := dispatch_track ctx i m.id.val (c := 0) (d := e.rise)
      have hall := receiver_conserves ctx i e .eax this rfl htrack
        (callReg_shifts .esi)
      rw [hdispatch]
      simpa only [List.append_assoc] using hall

/-! ## Allocations and type tests -/

theorem checkAllocation_track {c d : UInt32} :
    Track (levels c d) (some c) (checkAllocation ctx i) (some c) :=
  .keep rfl (track_jcc rfl (.move rfl (track_stop rfl (.land rfl .nil))))

variable (ctx i) in
/-- An allocation leaves the arguments below the type descriptor behind. -/
theorem allocate_around {allocator : Intrinsic} (descriptor : Symbol) {after : List Instr}
    {r d : UInt32} (hreturn : allocator.returnBytes = 4) (hafter : Shifts after r)
    (hsum : -4 + UInt32.ofNat allocator.argBytes + r = d) :
    Conserves (allocate ctx i allocator descriptor ++ after) d := by
  have hpush : Shifts [Instr.pushAddr descriptor] (-4) := shifts_of_movesAll rfl
  have hcall : Shifts [Instr.callSymbol allocator.symbol, .popReg .eax] 4 :=
    (callSymbol_shifts allocator.symbol).after (shifts_of_movesAll (d := 4) rfl)
  have hbefore := (((hpush.append (reserve_shifts allocator.returnBytes)).append hcall).append
    (drop_shifts allocator.argBytes))
  rw [hreturn, show (-4 : UInt32) + -UInt32.ofNat 4 + 4 = -4 from rfl] at hbefore
  unfold allocate
  rw [hreturn]
  exact .around hbefore checkAllocation_track hafter hsum

theorem newObject_conserves (hmatches : Matches ctx env i stack)
    (hexchanges : Exchanges env i stack e .newObject) (hcode : newObject ctx i = .ok code) :
    Conserves code e.rise := by
  obtain ⟨ctor, declaring, hctor, hdeclaring, hsizes⟩ := hexchanges
  obtain ⟨⟨ctor', declaring'⟩, hmethod, hcode⟩ := answer_bind.mp hcode
  obtain ⟨ctor'', hctor', hmethod⟩ := answer_bind.mp hmethod
  obtain ⟨declaring'', hdeclaring', hmethod⟩ := answer_bind.mp hmethod
  obtain ⟨rfl, rfl⟩ := Prod.mk.inj (Except.ok.inj hmethod)
  rw [hmatches.tables, hctor] at hctor'
  obtain rfl := Except.ok.inj hctor'
  rw [hmatches.tables, hdeclaring] at hdeclaring'
  obtain rfl := Except.ok.inj hdeclaring'
  dsimp only at hcode
  split at hcode
  · rename_i hdelegate
    rw [if_pos hdelegate, hmatches.pointerSize] at hsizes
    obtain rfl := Except.ok.inj hcode
    rw [hsizes.rise]
    exact .of_shifts (shifts_of_movesAll rfl)
  · rename_i hdelegate
    rw [if_neg hdelegate, hmatches.pointerSize] at hsizes
    obtain ⟨items, hshapes, hsizes⟩ := hsizes
    obtain ⟨params, hparams, hcode⟩ := answer_bind.mp hcode
    obtain rfl := Except.ok.inj hcode
    have hbytes := hmatches.paramBytes_eq hshapes hparams
    have hslides := shifts_flatMap (List.range (params / 4)) fun k _ =>
      (shifts_of_movesAll rfl : Shifts (slideArgument k) 0)
    rw [UInt32.mul_zero] at hslides
    have hstores : Shifts [Instr.store (.based .esp (Int32.ofNat params)) .eax,
        .store (.based .esp (Int32.ofNat params + 4)) .eax] 0 := shifts_of_movesAll rfl
    have hcall : Shifts [Instr.store (.based .esp (Int32.ofNat params)) .eax,
        .store (.based .esp (Int32.ofNat params + 4)) .eax, .callSymbol ctor.symbol] 0 :=
      hstores.after (callSymbol_shifts ctor.symbol)
    have hafter := (((reserve_shifts 8).before hslides).before hcall).append
      (drop_shifts ((params + 4) % UInt32.size))
    have hsum : -4 + UInt32.ofNat Intrinsic.newObject.argBytes +
        (-UInt32.ofNat 8 + UInt32.ofNat ((params + 4) % UInt32.size)) = e.rise := by
      rw [hsizes.rise, hbytes, UInt32.ofNat_mod_size, UInt32.ofNat_add, ofNat_countBytes, ← totalBytes_reverse,
        totalBytes_eq_sum]
      generalize UInt32.ofNat (items.reverse.map StackItem.size).sum = n
      show -4 + 4 + (-8 + (n + 4)) = n - 4
      grind
    have hall := allocate_around ctx i declaring.symbol rfl hafter hsum
    simpa only [construct, List.append_assoc] using hall

theorem newArray_conserves (hsizes : e.Sizes [4] [4]) (hcode : newArray ctx i = .ok code) :
    Conserves code e.rise := by
  obtain ⟨t, -, hcode⟩ := answer_bind.mp hcode
  obtain rfl := Except.ok.inj hcode
  have hpush : Shifts [Instr.pushReg .eax] (-4) := shifts_of_movesAll rfl
  refine allocate_around ctx i t.symbol rfl hpush ?_
  rw [hsizes.rise]
  rfl

theorem typeTest_conserves {isCast : Bool} (hsizes : e.Sizes [4] [4])
    (hcode : typeTest ctx i isCast = .ok code) : Conserves code e.rise := by
  obtain ⟨t, -, hcode⟩ := answer_bind.mp hcode
  obtain rfl := Except.ok.inj hcode
  rw [hsizes.rise]
  show Conserves _ 0
  have hpop : Track (levels 4 0) (some 0) [Instr.popReg .eax] (some 4) :=
    (shifts_of_movesAll (d := 4) rfl).track rfl
  have hpush : Track (levels 4 0) (some 4) [Instr.pushReg .eax] (some 0) :=
    (shifts_of_movesAll (d := -4) rfl).track rfl
  have hfailed : Track (levels 4 0) (some 4)
      ((if isCast then throwHere .throwInvalidCast else [Instr.aluReg .xor .eax .eax]) ++
        ([Instr.label (ctx.inside i "Done" 2)] ++ [Instr.pushReg .eax])) (some 0) := by
    cases isCast with
    | false => exact .keep rfl (.label rfl rfl hpush)
    | true => exact (throwHere_track rfl).append (.land rfl hpush)
  have hscan : Track (levels 4 0) (some 4)
      [Instr.testReg .eax,
       .jcc .e (ctx.inside i "Done" 2),
       .load .ecx (.based .eax (Int32.ofNat ctx.options.layout.typePointer)),
       .label (ctx.inside i "Scan" 0),
       .testReg .ecx,
       .jcc .e (ctx.inside i "Failed" 1),
       .alu .cmp (.reg .ecx) (.addr t.symbol),
       .jcc .e (ctx.inside i "Done" 2),
       .load .ecx (.based .ecx (Int32.ofNat ctx.options.layout.typeBase)),
       .jump (ctx.inside i "Scan" 0),
       .label (ctx.inside i "Failed" 1)] (some 4) :=
    .keep rfl (track_jcc rfl (.keep rfl (.label rfl rfl (.keep rfl (track_jcc rfl (.keep rfl
      (track_jcc rfl (.keep rfl (track_jump rfl (.land rfl .nil))))))))))
  have hall := (hpop.append hscan).append hfailed
  rw [← List.append_assoc] at hall
  exact .of_levels hall

/-! ## All templates -/

/-- A template adds to the stack pointer what the simulation popped less what it pushed. -/
theorem emit_conserves (hmatches : Matches ctx env i stack)
    (hexchanges : Exchanges env i stack e i.op.operation) (hpseudo : i.op.isPseudo = false)
    (hthrow : i.op ≠ .throw) (hfailure : (emit ctx i e).failure = none) :
    Conserves (emit ctx i e).code e.rise := by
  have hpush : ∀ {n : Nat}, e.Sizes [] [n] → -UInt32.ofNat n = e.rise := by
    intro n hsizes
    rw [hsizes.rise]
    simp
  have hpop : ∀ {n : Nat}, e.Sizes [n] [] → UInt32.ofNat n = e.rise := by
    intro n hsizes
    rw [hsizes.rise]
    simp
  obtain ⟨hstart, hend, hnothrow⟩ := operation_of_returning hpseudo hthrow
  revert hexchanges hfailure
  unfold emit Exchanges
  rw [hmatches.pointerSize]
  cases hop : i.op.operation with
  | nop =>
    intro hsizes _
    rw [hsizes.rise]
    exact .of_shifts (shifts_of_movesAll rfl)
  | methodStart => exact absurd hop hstart
  | methodEnd => exact absurd hop hend
  | throw => exact absurd hop hnothrow
  | ret =>
    intro hsizes _
    refine ret_conserves (List.map_eq_nil_iff.mp hsizes.pushed) ?_
    rw [Effect.poppedBytes, dvd_countBytes, hsizes.totalPopped]
    cases hreturn : env.frame.returnItem with
    | none => exact Nat.dvd_zero 4
    | some item => simpa using hmatches.items item (.result hop hreturn)
  | loadArg =>
    rintro ⟨slot, hselects, hsizes⟩ hfailure
    exact .ofExcept_shifts hfailure (hpush hsizes) fun _ hcode =>
      loadSlot_shifts hcode fun _ => hmatches.slot_arg (.inl hop) hselects
  | loadLocal =>
    rintro ⟨slot, hselects, hsizes⟩ hfailure
    exact .ofExcept_shifts hfailure (hpush hsizes) fun _ hcode =>
      loadSlot_shifts hcode fun _ => hmatches.slot_local (.inl hop) hselects
  | storeArg =>
    rintro ⟨slot, hselects, hsizes⟩ hfailure
    exact .ofExcept_shifts hfailure (hpop hsizes) fun _ hcode =>
      storeSlot_shifts hcode fun _ => hmatches.slot_arg (.inr hop) hselects
  | storeLocal =>
    rintro ⟨slot, hselects, hsizes⟩ hfailure
    exact .ofExcept_shifts hfailure (hpop hsizes) fun _ hcode =>
      storeSlot_shifts hcode fun _ => hmatches.slot_local (.inr hop) hselects
  | loadArgAddress | loadLocalAddress =>
    intro hsizes hfailure
    exact .ofExcept_shifts hfailure (hpush hsizes) fun _ => slotAddress_shifts
  | loadConst =>
    intro hsizes hfailure
    exact .ofExcept_shifts hfailure (hpush hsizes) fun _ => loadConst_shifts
  | loadNull =>
    intro hsizes _
    rw [← hpush hsizes]
    exact .of_shifts (shifts_of_movesAll rfl)
  | loadString | loadToken | loadFunction =>
    intro hsizes hfailure
    exact .ofExcept_shifts hfailure (hpush hsizes) fun _ => loadSymbol_shifts
  | sizeOf =>
    intro hsizes hfailure
    exact .ofExcept_shifts hfailure (hpush hsizes) fun _ => sizeOf_shifts
  | dup =>
    rintro ⟨top, rest, rfl, hpopped, hpushed⟩ _
    have hsizes : e.Sizes [] [top.size] := ⟨by rw [hpopped]; rfl, by rw [hpushed]; rfl⟩
    rw [← hpush hsizes]
    exact .of_shifts (dup_shifts hpushed (hmatches.items top (.top hop rfl)))
  | pop =>
    rintro ⟨top, rest, rfl, hpopped, hpushed⟩ _
    have hsizes : e.Sizes [top.size] [] := ⟨by rw [hpopped]; rfl, by rw [hpushed]; rfl⟩
    rw [← hpop hsizes]
    exact .of_shifts (pop_shifts hpopped)
  | binary op =>
    rintro ⟨n, hn, -, hsizes⟩ hfailure
    exact binary_conserves hn hsizes hfailure
  | unary op =>
    rintro ⟨n, hn, hsizes⟩ _
    exact unary_conserves op hn hsizes
  | shift op =>
    rintro ⟨n, count, hn, hcount, hsizes⟩ _
    exact shift_conserves op hn hcount hsizes
  | compare op =>
    rintro ⟨n, hn, hsizes⟩ _
    exact compare_conserves op hn hsizes
  | convert target =>
    cases target with
    | none => exact fun hexchanges => hexchanges.elim
    | some target =>
      rintro ⟨n, hn, hsizes⟩ _
      show Conserves (convertTo ctx.options.pointerSize (e.operand 0).size target) e.rise
      rw [hmatches.options]
      exact convert_conserves hn hsizes
  | branch condition =>
    intro hexchanges hfailure
    refine .ofExcept hfailure fun code hcode => ?_
    obtain ⟨t, -, hcode⟩ := answer_bind.mp hcode
    obtain ⟨target, -, hcode⟩ := answer_bind.mp hcode
    obtain rfl := Except.ok.inj hcode
    exact branchTo_conserves target hexchanges
  | switch =>
    intro hsizes hfailure
    exact switch_conserves hsizes hfailure
  | leave =>
    rintro ⟨-, hpushed⟩ hfailure
    exact .ofExcept hfailure fun _ => leave_conserves hpushed
  | loadField =>
    rintro ⟨item, hshape, hsizes⟩ hfailure
    exact .ofExcept hfailure fun _ => loadField_conserves hmatches hshape hsizes
  | loadFieldAddress =>
    intro hsizes hfailure
    exact .ofExcept hfailure fun _ => loadFieldAddress_conserves hsizes
  | storeField =>
    rintro ⟨item, hshape, hsizes⟩ hfailure
    exact .ofExcept hfailure fun _ => storeField_conserves hmatches hshape hsizes
  | loadStatic =>
    rintro ⟨item, hshape, hsizes⟩ hfailure
    exact .ofExcept_shifts hfailure (hpush hsizes) fun _ => loadStatic_shifts hmatches hshape
  | loadStaticAddress =>
    intro hsizes hfailure
    exact .ofExcept_shifts hfailure (hpush hsizes) fun _ => loadStaticAddress_shifts
  | storeStatic =>
    rintro ⟨item, hshape, hsizes⟩ hfailure
    exact .ofExcept_shifts hfailure (hpop hsizes) fun _ => storeStatic_shifts hmatches hshape
  | loadIndirect kind =>
    rintro ⟨item, hshape, hsizes⟩ hfailure
    exact .ofExcept hfailure fun _ => loadIndirect_conserves hmatches hshape hsizes
  | storeIndirect kind =>
    rintro ⟨item, hshape, hsizes⟩ hfailure
    exact .ofExcept hfailure fun _ => storeIndirect_conserves hmatches hshape hsizes
  | loadLength =>
    intro hsizes _
    exact loadLength_conserves hsizes
  | loadElement kind =>
    rintro ⟨item, hshape, hsizes⟩ hfailure
    exact .ofExcept hfailure fun _ => loadElement_conserves hmatches hshape hsizes
  | loadElementAddress =>
    intro hsizes hfailure
    exact .ofExcept hfailure fun _ => loadElementAddress_conserves hsizes
  | storeElement kind =>
    rintro ⟨item, hshape, hsizes⟩ hfailure
    exact .ofExcept hfailure fun _ => storeElement_conserves hmatches hshape hsizes
  | call =>
    intro _ hfailure
    exact .ofExcept_shifts hfailure rfl fun _ => call_shifts
  | callIndirect =>
    rintro ⟨m, -, items, result, -, -, hsizes⟩ _
    exact .of_shifts (callIndirect_shifts hsizes.popped)
  | callVirtual =>
    intro _ hfailure
    exact .ofExcept hfailure fun _ => callVirtual_conserves
  | newObject =>
    intro hexchanges hfailure
    refine .ofExcept hfailure fun _ => newObject_conserves hmatches ?_
    unfold Exchanges
    rwa [hmatches.pointerSize]
  | newArray =>
    intro hsizes hfailure
    exact .ofExcept hfailure fun _ => newArray_conserves hsizes
  | isInstance | castClass =>
    intro hsizes hfailure
    exact .ofExcept hfailure fun _ => typeTest_conserves hsizes
  | initObject =>
    intro hsizes hfailure
    exact .ofExcept hfailure fun _ => initObject_conserves hsizes

end Stencil.X86
