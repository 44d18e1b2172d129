import Stencil.Proofs.Dispatch.Targets
import Stencil.Proofs.Mips.Displacements
import Stencil.Proofs.Mips.Faults
import Stencil.Proofs.Mips.Invocation
import Stencil.Proofs.Running.Targets

/-!
# Unaligned accesses of MIPS32 code

A template adds to a pointer only what is a multiple of the bytes it accesses there: offsets of slots and
fields, headers, and strides of elements. Under the default policy pointers of unknown alignment are followed
byte by byte. Hence an access is unaligned only where the pointer was. Pointers into values need not be
aligned, and those are followed by words as well.
-/

namespace Stencil.Mips

open AddressMap Function Invocation Stateful

/-! ## Multiples -/

/-- What is added to an address of an unaligned access is a multiple of the width, so the address is not. -/
theorem unaligned_of_add {a : UInt32} {n : Int} {bytes : Nat} (hbytes : bytes ∣ 2 ^ 32) (hn : (bytes : Int) ∣ n)
    (h : (a + (Int32.ofInt n).toUInt32).toNat % bytes ≠ 0) : a.toNat % bytes ≠ 0 := by
  intro ha
  have hoffset : bytes ∣ (Int32.ofInt n).toUInt32.toNat := by
    have hofInt : UInt32.ofInt n = UInt32.ofNat (n % 2 ^ 32).toNat := rfl
    have hpos : 0 ≤ n % 2 ^ 32 := Int.emod_nonneg n (by decide)
    rw [Meaning.toUInt32_ofInt, hofInt, UInt32.toNat_ofNat']
    refine (Nat.dvd_mod_iff hbytes).mpr (Int.natCast_dvd_natCast.mp ?_)
    rw [Int.toNat_of_nonneg hpos, Int.emod_def]
    exact Int.dvd_sub hn ((Int.natCast_dvd_natCast.mpr hbytes).mul_right _)
  refine h (Nat.mod_eq_zero_of_dvd ?_)
  rw [UInt32.toNat_add]
  exact (Nat.dvd_mod_iff hbytes).mpr (Nat.dvd_add (Nat.dvd_of_mod_eq_zero ha) hoffset)

theorem bytes_dvd_word (width : Width) : width.bytes ∣ 2 ^ 32 := by cases width <;> decide

theorem displacement?_of_access? {instr : Instr} {width : Width} {offset : Int32} {base : Reg}
    (h : instr.access? = some (width, offset, base)) :
    instr.displacement? = some (width.bytes, base, offset) := by
  cases instr <;> cases h <;> rfl

/-! ## Elements -/

section Elements

/-- The code accesses the stack and the length of an array, and elsewhere as many bytes at once as divide the
stride. -/
def Strides (length : Int32) (stride : Nat) (code : List Instr) : Prop :=
  ∀ instr ∈ code, ∀ width offset base, instr.access? = some (width, offset, base) →
    base = .sp ∨ offset = length ∨ width.bytes ∣ stride

namespace Strides

variable {length : Int32} {stride : Nat} {code code' : List Instr}

theorem append (h : Strides length stride code) (h' : Strides length stride code') :
    Strides length stride (code ++ code') :=
  fun instr hinstr => (List.mem_append.mp hinstr).elim (h instr) (h' instr)

theorem flatMap {α : Type} {f : α → List Instr} (xs : List α) (h : ∀ x, Strides length stride (f x)) :
    Strides length stride (xs.flatMap f) := fun instr hinstr => by
  obtain ⟨x, -, hinstr⟩ := List.mem_flatMap.mp hinstr
  exact h x instr hinstr

theorem one {instr : Instr} {width : Width} {offset : Int32} {base : Reg}
    (h : instr.access? = some (width, offset, base)) (hdvd : width.bytes ∣ stride) :
    Strides length stride [instr] := by
  intro other hother width' offset' base' h'
  obtain rfl := List.mem_singleton.mp hother
  obtain ⟨rfl, -⟩ := Prod.mk.inj (Option.some.inj (h.symm.trans h'))
  exact .inr (.inr hdvd)

theorem cons {instr : Instr} (h : Strides length stride [instr]) (h' : Strides length stride code) :
    Strides length stride (instr :: code) := h.append h'

theorem of_eval (h : (code.all fun instr => match instr.access? with
    | none => true
    | some (width, _, base) => base == .sp || width == .byte) = true) : Strides length stride code := by
  intro instr hinstr width offset base haccess
  have hfits := List.all_eq_true.mp h instr hinstr
  rw [haccess] at hfits
  rcases Bool.or_eq_true_iff.mp hfits with hbase | hwidth
  · exact .inl (eq_of_beq hbase)
  · rw [eq_of_beq hwidth]
    exact .inr (.inr (Nat.one_dvd stride))

theorem ofExcept {answer : Except CompileError (List Instr)}
    (h : ∀ code, answer = .ok code → Strides length stride code) :
    Strides length stride (Template.ofExcept answer).code := by
  cases answer with
  | error e => exact fun _ hinstr => absurd hinstr List.not_mem_nil
  | ok code => exact h code rfl

end Strides

variable {ctx : EmitContext} {i : Instruction} {e : Effect} {length : Int32} {stride align : Nat}

theorem drop_strides (bytes : Nat) : Strides length stride (Instr.drop bytes) := by
  unfold Instr.drop
  split <;> exact .of_eval rfl

theorem loadValue_strides (hknown : align ∈ [1, 2, 4]) (hdvd : align ∣ stride) (base : Reg) (offset : Int32)
    (bytes : Nat) (signed : Bool) : Strides length stride (loadValue base offset bytes signed align) := by
  unfold loadValue
  split
  · rename_i width hwidth
    have hwhole := whole_dvd hknown (Int.natCast_dvd_natCast.mpr hdvd) hwidth
    exact .one rfl (Int.natCast_dvd_natCast.mp hwhole)
  · refine .cons (.one rfl (Nat.one_dvd stride)) (.flatMap _ fun k => ?_)
    exact .cons (.of_eval rfl) (.cons (.one rfl (Nat.one_dvd stride)) (.of_eval rfl))

theorem storeValue_strides (hknown : align ∈ [1, 2, 4]) (hdvd : align ∣ stride) (base : Reg) (offset : Int32)
    (bytes : Nat) : Strides length stride (storeValue base offset bytes align) := by
  unfold storeValue
  split
  · rename_i width hwidth
    have hwhole := whole_dvd hknown (Int.natCast_dvd_natCast.mpr hdvd) hwidth
    exact .one rfl (Int.natCast_dvd_natCast.mp hwhole)
  · refine .cons (.one rfl (Nat.one_dvd stride)) (.flatMap _ fun k => ?_)
    exact .cons (.of_eval rfl) (.one rfl (Nat.one_dvd stride))

theorem elementBase_strides (array index : Reg) :
    Strides (Int32.ofNat ctx.options.layout.arrayLength) stride (elementBase ctx i array index stride) := by
  refine .append (.append (.of_eval rfl) ?_) ?_
  · refine .append (.append (.append (.append (.append (.of_eval rfl) (.cons ?_ (.of_eval rfl))) (.of_eval rfl))
      (.of_eval rfl)) (.of_eval rfl)) (.of_eval rfl)
    rintro instr hinstr width offset base haccess
    obtain rfl := List.mem_singleton.mp hinstr
    cases haccess
    exact .inr (.inl rfl)
  · unfold scaleIndex
    split
    · split <;> exact .of_eval rfl
    · exact .of_eval rfl

theorem offsetAlignment_dvd (n : Nat) : offsetAlignment n ∣ n := by
  unfold offsetAlignment
  split_ifs <;> omega

theorem elementAlignment_dvd (access : Access) : elementAlignment ctx access ∣ access.storage := by
  refine Nat.dvd_trans ?_ (offsetAlignment_dvd access.storage)
  have hstorage := offsetAlignment_known access.storage
  have hheader := offsetAlignment_known ctx.options.layout.arrayHeader
  unfold elementAlignment
  generalize offsetAlignment access.storage = a at hstorage ⊢
  generalize offsetAlignment ctx.options.layout.arrayHeader = b at hheader ⊢
  revert a b
  decide

theorem loadElement_strides {kind : ValueKind} {access : Access} (haccess : ctx.kindAccess i kind = .ok access)
    {code : List Instr} (hcode : loadElement ctx i kind = .ok code) :
    Strides (Int32.ofNat ctx.options.layout.arrayLength) access.storage code := by
  obtain ⟨access', haccess', hcode⟩ := answer_bind.mp hcode
  obtain ⟨header, -, hcode⟩ := answer_bind.mp hcode
  obtain rfl := Except.ok.inj (haccess.symm.trans haccess')
  obtain rfl := Except.ok.inj hcode
  refine .append (.append (.of_eval rfl) (elementBase_strides _ _)) (.flatMap _ fun k => .append ?_ (.of_eval rfl))
  exact loadValue_strides elementAlignment_known (elementAlignment_dvd access) _ _ _ _

theorem storeElement_strides {kind : ValueKind} {access : Access} (haccess : ctx.kindAccess i kind = .ok access)
    {code : List Instr} (hcode : storeElement ctx i e kind = .ok code) :
    Strides (Int32.ofNat ctx.options.layout.arrayLength) access.storage code := by
  obtain ⟨access', haccess', hcode⟩ := answer_bind.mp hcode
  obtain ⟨header, -, hcode⟩ := answer_bind.mp hcode
  obtain ⟨value, -, hcode⟩ := answer_bind.mp hcode
  obtain rfl := Except.ok.inj (haccess.symm.trans haccess')
  obtain rfl := Except.ok.inj hcode
  refine .append (.append (.append (.of_eval rfl) (elementBase_strides _ _))
    (.flatMap _ fun k => .append (.of_eval rfl) ?_)) (drop_strides _)
  exact storeValue_strides elementAlignment_known (elementAlignment_dvd access) _ _ _

end Elements

/-! ## Runs -/

section Runs

/-- The operation follows a pointer to an object or an array, or to the storage of a static field. -/
def followsObject : Operation → Bool
  | .loadField | .storeField | .loadStatic | .storeStatic | .loadLength | .loadElementAddress | .callVirtual
  | .isInstance | .castClass => true
  | _ => false

/-- Why an instruction may access more than a byte at once through a pointer that it did not make. -/
inductive FollowsWide (ctx : EmitContext) (i : Instruction) (width : Width) (offset : Int32) : Prop
  | object (hop : followsObject i.op.operation = true)
  | element {kind : ValueKind} {access : Access}
      (hop : i.op.operation = .loadElement kind ∨ i.op.operation = .storeElement kind)
      (haccess : ctx.kindAccess i kind = .ok access)
      (hstride : offset = Int32.ofNat ctx.options.layout.arrayLength ∨ width.bytes ∣ access.storage)

/-- The run stopped at an unaligned access, and the register that it started from was unaligned as well. -/
structure UnalignedAt (p : Program Instr) (stop : Machine) (a : UInt32) (instr : Instr) (width : Width)
    (offset : Int32) (base : Reg) : Prop where
  fetched : ∃ index, p.indexOf stop.pc = .ok index ∧ p.code[index]? = some instr
  access : instr.access? = some (width, offset, base)
  address : a = stop.reg base + offset.toUInt32
  base : (stop.reg base).toNat % width.bytes ≠ 0

variable {methods : List (CompiledMethod Instr)} {tables : Table} {options : Options} {config : RunConfig}
  {p : Program Instr} {store : Store}

/-- The run stopped at an access that started from an unaligned register: the stack or frame pointer, or a
pointer that the template of an instruction follows. -/
def UnalignedPointer (methods : List (CompiledMethod Instr)) (tables : Table) (options : Options)
    (p : Program Instr) (stop : Machine) (a : UInt32) : Prop :=
  ∃ instr width offset base, UnalignedAt p stop a instr width offset base ∧
    (base = .sp ∨ base = .fp ∨ ∃ m ∈ methods, ∃ body, ∃ c : Compilation backend tables options body m,
      ∃ pair ∈ c.marked.zip c.steps, instr ∈ (emit c.ctx pair.1 pair.2.effect).code ∧
        FollowsWide c.ctx pair.1 width offset)

/-- Under the default policy the templates that follow pointers by words are those of objects and arrays. -/
theorem followsWide_of_emit {ctx : EmitContext} {i : Instruction} {e : Effect}
    (hpolicy : ctx.policy = backend.defaultPolicy) (hfollows : followsPointers ctx i = true) {instr : Instr}
    (hinstr : instr ∈ (emit ctx i e).code) {width : Width} {offset : Int32} {base : Reg}
    (haccess : instr.access? = some (width, offset, base)) :
    base = .sp ∨ FollowsWide ctx i width offset := by
  have haligned : ctx.policy.assumeAligned = false := by
    rw [hpolicy]
    rfl
  unfold followsPointers at hfollows
  unfold emit at hinstr
  cases hop : i.op.operation with
  | loadElement kind =>
    rw [hop] at hinstr
    cases hkind : ctx.kindAccess i kind with
    | error err =>
      have hfails : loadElement ctx i kind = .error err := by
        rw [loadElement, hkind]
        rfl
      simp [hfails, Template.ofExcept] at hinstr
    | ok access =>
      have hstrides := Strides.ofExcept (fun _ => loadElement_strides (i := i) hkind) instr hinstr _ _ _ haccess
      exact hstrides.imp_right (.element (.inl hop) hkind)
  | storeElement kind =>
    rw [hop] at hinstr
    cases hkind : ctx.kindAccess i kind with
    | error err =>
      have hfails : storeElement ctx i e kind = .error err := by
        rw [storeElement, hkind]
        rfl
      simp [hfails, Template.ofExcept] at hinstr
    | ok access =>
      have hstrides := Strides.ofExcept (fun _ => storeElement_strides (i := i) (e := e) hkind) instr hinstr _ _ _
        haccess
      exact hstrides.imp_right (.element (.inr hop) hkind)
  | loadField | storeField | loadStatic | storeStatic | loadLength | loadElementAddress | callVirtual
  | isInstance | castClass =>
    refine .inr (.object ?_)
    rw [hop]
    rfl
  | loadIndirect | storeIndirect | initObject =>
    rw [hop] at hfollows
    cases haligned.symm.trans hfollows
  | _ =>
    rw [hop] at hfollows
    cases hfollows

/-- A run of linked methods that were compiled under the default policy ends at an unaligned access only if
the register that it started from was unaligned: the stack or frame pointer, or a pointer to an object or an
array that a template follows. -/
theorem unaligned_needs_unaligned_pointer (hpolicy : options.policy = none)
    (hcompiled : ∀ m ∈ methods, ∃ body, compileMethod backend tables options body = .ok m)
    (hlink : link methods tables options config = .ok (p, store)) {entry : Symbol} {args : List StackValue}
    {returnBytes : UInt32} {start stop : Machine} {a : UInt32}
    (hrun : Machine.invoke p entry args returnBytes start = .error (.unaligned a) stop) :
    UnalignedPointer methods tables options p stop a := by
  have hlinked := link_ok hlink
  let E : Fault → Machine → Prop := fun fault m =>
    ∀ a, fault = .unaligned a → UnalignedPointer methods tables options p m a
  have hplain : ∀ {fault : Fault} {m : Machine}, fault.Plain → E fault m := by
    rintro fault m hplain a rfl
    exact hplain.elim
  have hallows : Allows p E :=
    { plain := hplain
      instr := fun _ =>
        { mechanical := fun h => hplain h.plain
          label := fun _ => .inr fun _ _ heq => nomatch heq
          symbol := fun _ => .inr fun _ _ heq => nomatch heq } }
  have haccesses : Machine.AllowsAccesses p E := by
    intro m index instr hat hinstr width offset base haccess hunaligned a' heq
    cases heq
    have hmem : instr ∈ methods.flatMap CompiledMethod.code := by
      rw [hlinked.code, List.getElem?_toArray] at hinstr
      exact List.mem_of_getElem? hinstr
    obtain ⟨method, hmethod, hmem⟩ := List.mem_flatMap.mp hmem
    obtain ⟨body, hbody⟩ := hcompiled method hmethod
    obtain ⟨c⟩ := compileMethod_ok hbody
    obtain ⟨pair, hpair, htemplate, hgrounded, n, rfl, hdvd, -⟩ :=
      displacement_covered c hmem (displacement?_of_access? haccess)
    have hbase := unaligned_of_add (bytes_dvd_word width) hdvd hunaligned
    refine ⟨instr, width, _, base, ⟨⟨index, hat, hinstr⟩, haccess, rfl, hbase⟩, ?_⟩
    rcases hgrounded with hbyte | hsp | hfp | hfollows
    · rw [hbyte, Nat.mod_one] at hbase
      exact absurd rfl hbase
    · exact .inl hsp
    · exact .inr (.inl hfp)
    · have hdefault : c.ctx.policy = backend.defaultPolicy := by
        show options.policy.getD backend.defaultPolicy = _
        rw [hpolicy]
        rfl
      rcases followsWide_of_emit hdefault hfollows htemplate haccess with hsp | hobject
      · exact .inl hsp
      · exact .inr (.inr ⟨method, hmethod, body, c, pair, hpair, htemplate, hobject⟩)
  exact Machine.invoke_faults hallows haccesses (.inr fun _ _ heq => nomatch heq) args returnBytes start _ stop
    hrun a rfl

end Runs

/-! ## A pointer into a value -/

section Interior

def holderType : TypeDescriptor := .composite 3 "Holder" 16

def pairType : TypeDescriptor := .composite 2 "Pair" 8

def firstMethod : MethodDescriptor :=
  { MethodDescriptor.ofName ⟨1, Nat.one_pos⟩ 3 "first" with returnType := some 1, locals := [3] }

/-- A value that holds a pair at an odd number of halfwords. -/
def holderTable : Table :=
  (((((Table.addType {} numberType).addType pairType).addType holderType).addField
    (.ofInstance 1 "pair" 3 2 6)).addField (.ofInstance 2 "first" 2 1 0)).addMethod firstMethod

def pairAddress : Instruction := { Instruction.placed 2 .ldflda [0, 0, 0, 0] with fieldRef := some 1 }

def firstLoad : Instruction := { Instruction.placed 7 .ldfld [0, 0, 0, 0] with fieldRef := some 2 }

/-- A body that loads the first word of the pair in a local, through the address of the pair. -/
def interiorBody : MethodBody where
  method := firstMethod.id
  instructions := [.placed 0 .ldlocaS [0], pairAddress, firstLoad, .placed 12 .ret []]

def interiorContext : EmitContext :=
  { tables := holderTable, options := {}, policy := backend.defaultPolicy,
    frame := {
      args := [], locals := [⟨-16, .value 16⟩], returnItem := some .int32, argBytes := 0, localBytes := 16 },
    method := firstMethod, endPosition := 13 }

/-- What is compiled up to the load. -/
def interiorCode : List Instr :=
  prologue interiorContext ++ ([.addiu .t6 .fp (-16)] ++ (Instr.push .t6 ++
    (Instr.pop .t0 ++ (nullCheck interiorContext pairAddress .t0 ++ ([.addiu .t0 .t0 6] ++ (Instr.push .t0 ++
      (Instr.pop .t0 ++ (nullCheck interiorContext firstLoad .t0 ++ [.load .word false .t6 0 .t0]))))))))

variable {p : Program Instr} {m : Machine}

/-- Behind the start of the method the code gets to the load, whose address is no multiple of four. -/
theorem interior_ends (hfits : p.code.size ≤ codeLimit) (hplaced : Placed p 0 interiorCode) {slot : List UInt32}
    (hslot : slot.length = 1)
    (hm : Poised Instr m 13 (List.replicate 4 0 ++ invokedWords 0 slot []) (stackPointer (invokedWords 0 slot []))) :
    Ends (Machine.cycle p) (.unaligned 0x3FFFDA) m := by
  obtain ⟨v, hstands, hwords, hfp⟩ := hm
  have hsp : get v .sp = 0x3FFFD4 := by
    simp [get, hwords, invokedWords, argumentWords, stackPointer, hslot, stackTop]
  have hframe : get v .fp = 0x3FFFE4 := by
    simp [get, hfp, invokedWords, argumentWords, stackPointer, hslot, stackTop]
  have h : Rests m 13 (get v) m.store := ⟨hstands.pc, hstands.npc, hstands.sees.reg, rfl⟩
  have hbody := hplaced.back
  have hmember := hbody.back.back.back.back
  refine (h.addiu hfits (hbody.fetch 0 _ rfl) (by decide)).reaches fun m₁ h₁ => ?_
  rw [hframe, show (0x3FFFE4 : UInt32) + Int32.toUInt32 (-16) = 0x3FFFD4 by decide] at h₁
  refine h₁.pushed_address hfits hbody.back (by decide) ?_ ?_ rfl ?_ fun m₂ store₂ h₂ => ?_
  · rw [update_of_ne (by decide), hsp]
    decide
  · rw [update_of_ne (by decide), hsp]
    decide
  · rw [update_self]
    decide
  rw [update_self] at h₂
  refine (h₂.addiu hfits (hmember.fetch 0 _ rfl) (by decide)).reaches fun m₃ h₃ => ?_
  rw [update_idem, update_self, show (0x3FFFD4 : UInt32) + Int32.toUInt32 6 = 0x3FFFDA by decide] at h₃
  refine h₃.pushed_address hfits hmember.back (by decide) ?_ ?_ rfl ?_ fun m₄ store₄ h₄ => ?_
  · rw [update_of_ne (by decide), update_of_ne (by decide), hsp]
    decide
  · rw [update_of_ne (by decide), update_of_ne (by decide), hsp]
    decide
  · rw [update_self]
    decide
  rw [update_idem, update_self] at h₄
  exact h₄.load_unaligned hfits (hmember.back.back.back.back.fetch 0 _ rfl)
    (by rw [update_self, add_zero_offset]) (by decide)

/-- The method is compiled and linked, and invocations end at the load. -/
theorem interior_run : ∃ m store, compileMethod backend holderTable {} interiorBody = .ok m ∧
    ∀ start, ∃ config p stop, link [m] holderTable {} config = .ok (p, store) ∧
      Machine.invoke p m.symbol [] 4 start = .error (.unaligned 0x3FFFDA) stop := by
  obtain ⟨m, p, store, hcompiled, hlink, hfits, hplaced⟩ := exists_linked_of_compilesAt
    (show compilesAt backend holderTable interiorBody interiorCode 0 = true by decide +kernel)
  have hsymbol : m.symbol = firstMethod.symbol := symbol_of_compiled hcompiled rfl
  have hvisible : m.symbol ∉ holderTable.dataSymbols := by
    rw [hsymbol]
    decide
  refine ⟨m, store, hcompiled, fun start => ?_⟩
  have hfits' : p.code.size ≤ codeLimit := Nat.le_of_lt hfits
  obtain ⟨limit, hlimit⟩ := @invoke_ends p 0 1 m.symbol [] (.unaligned 0x3FFFDA) interiorContext start hfits'
    (fun _ heq => nomatch heq) (resolve_of_visible hlink hvisible) hplaced.front (by decide)
    fun hslot hm => interior_ends hfits' hplaced hslot hm
  obtain ⟨stop, hstop⟩ := hlimit limit (Nat.le_refl _)
  exact ⟨_, _, stop, link_stepLimit hlink limit, hstop⟩

/-- A run that stops there started from an unaligned pointer. -/
theorem unaligned_needs_unaligned_pointer_interior : ∃ m config p store stop,
    link [m] holderTable {} config = .ok (p, store) ∧
      Machine.invoke p m.symbol [] 4 (Machine.ops.start store) = .error (.unaligned 0x3FFFDA) stop ∧
      UnalignedPointer [m] holderTable {} p stop 0x3FFFDA := by
  obtain ⟨m, store, hcompiled, hrun⟩ := interior_run
  obtain ⟨config, p, stop, hlink, hinvoke⟩ := hrun (Machine.ops.start store)
  exact ⟨m, config, p, store, stop, hlink, hinvoke,
    unaligned_needs_unaligned_pointer rfl (compiled_singleton hcompiled) hlink hinvoke⟩

/-- The address comes from that of a local, by way of a field, and still the load is not aligned. -/
theorem interior_pointer_unaligned : ∃ m config p store stop,
    compileMethod backend holderTable {} interiorBody = .ok m ∧
      link [m] holderTable {} config = .ok (p, store) ∧
      Machine.invoke p m.symbol [] 4 (Machine.ops.start store) = .error (.unaligned 0x3FFFDA) stop := by
  obtain ⟨m, store, hcompiled, hrun⟩ := interior_run
  obtain ⟨config, p, stop, hlink, hinvoke⟩ := hrun (Machine.ops.start store)
  exact ⟨m, config, p, store, stop, hcompiled, hlink, hinvoke⟩

end Interior
end Stencil.Mips
