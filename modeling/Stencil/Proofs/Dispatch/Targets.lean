import Stencil.Mips.Backend
import Stencil.Proofs.Height.Paths
import Stencil.Proofs.Mips.Dispatch
import Stencil.Proofs.X86.Dispatch
import Stencil.X86.Backend

/-!
# Virtual calls follow the hierarchy

On both targets the template of a virtual call searches the method tables that linking has laid out and
finds what the descriptors say: the first implementation of the slot along the lineage of the receiver's
type.
-/

namespace Stencil

open AddressMap Link

/-- On both targets a virtual call goes where the hierarchy says. -/
theorem virtual_calls_follow_hierarchy (tables : Table) {options : Options} {ctx : EmitContext}
    {i : Instruction} (e : Effect) {method : MethodDescriptor} (hoptions : ctx.options = options)
    (hcall : CallsVirtual ctx i method) (hstatics : StaticsFit tables options.pointerSize) :
    (∀ {methods p linked}, LinkedProgram X86.backend tables options methods p linked →
      ∀ {base}, Placed p base (X86.backend.emit ctx i e).code →
      ∀ {object m}, X86.Calling base e.poppedBytes e.pushedBytes options.pointerSize object m →
      KeepsTypes tables linked.memory m.store.memory →
      Resolves (X86.Machine.cycle p) p tables methods method.id m.store.memory object
        (codeAddress (base + 3))
        (X86.Called m e.pushedBytes (base + 26 + (X86.Instr.reserve e.pushedBytes).length)) m) ∧
    ((Mips.backend.emit ctx i e).failure = none →
      ∀ {methods p linked}, LinkedProgram Mips.backend tables options methods p linked →
      ∀ {base}, Placed p base (Mips.backend.emit ctx i e).code →
      ∀ {object m}, Mips.Calling base e.poppedBytes options.pointerSize object m →
      KeepsTypes tables linked.memory m.store.memory →
      Resolves (Mips.Machine.cycle p) p tables methods method.id m.store.memory object
        (codeAddress (base + 3))
        (Mips.Called m e.pushedBytes (base + 35 + (Mips.Instr.reserve e.pushedBytes).length)) m) :=
  ⟨fun hp _ hplaced _ _ hcalling hkeeps =>
    X86.resolves_callVirtual hp hstatics hoptions hcall hplaced hcalling hkeeps,
   fun hfailure _ _ _ hp _ hplaced _ _ hcalling hkeeps =>
    Mips.resolves_callVirtual hp hstatics hoptions hcall hfailure hplaced hcalling hkeeps⟩

/-! ## A body that is linked alone -/

section Sample

variable {I : Type} [TargetInstr I] [DecidableEq I]

/-- What a method compiled from a body has to be: short, with a template from `base` on, and ready to be
linked. -/
def compilesAt (backend : Backend I) (tables : Table) (body : MethodBody) (template : List I)
    (base : Nat) : Bool :=
  (compileMethod backend tables {} body).toOption.any fun m =>
    decide ((m.code.drop base).take template.length = template) &&
      decide (base ≤ m.code.length ∧ m.code.length < 100) && decide (boundLabels m.code).Nodup &&
      (link [m] tables {} {}).isOk

theorem exists_linked_of_compilesAt {backend : Backend I} {tables : Table} {body : MethodBody}
    {template : List I} {base : Nat} (h : compilesAt backend tables body template base = true) :
    ∃ m p linked, compileMethod backend tables {} body = .ok m ∧ link [m] tables {} {} = .ok (p, linked) ∧
      p.code.size < codeLimit ∧ Placed p base template := by
  unfold compilesAt at h
  cases hcompiled : compileMethod backend tables {} body with
  | error e =>
    rw [hcompiled] at h
    cases h
  | ok m =>
    rw [hcompiled] at h
    simp only [Except.toOption, Option.any_some, Bool.and_eq_true, decide_eq_true_eq] at h
    obtain ⟨⟨⟨htemplate, hbase, hshort⟩, hnodup⟩, hlink⟩ := h
    cases hlinked : link [m] tables {} {} with
    | error fault =>
      rw [hlinked] at hlink
      cases hlink
    | ok result =>
      obtain ⟨p, linked⟩ := result
      have hcode := (link_ok hlinked).code
      have hlabels := (link_ok hlinked).labels
      rw [List.flatMap_singleton] at hcode hlabels
      refine ⟨m, p, linked, rfl, hlinked, ?_, ?_⟩
      · rw [hcode, List.size_toArray]
        exact Nat.lt_trans hshort (by decide)
      · have hsplit : m.code = m.code.take base ++ (m.code.drop base).take template.length ++
            (m.code.drop base).drop template.length := by
          rw [List.append_assoc, List.take_append_drop, List.take_append_drop]
        rw [htemplate] at hsplit
        have hplaced := Placed.of_layout m.code hcode hlabels hnodup _ _ _ hsplit
        rwa [List.length_take, Nat.min_eq_left hbase] at hplaced

end Sample

/-! ## A call through a base type -/

section Shapes

def areaMethod : MethodDescriptor := (MethodDescriptor.ofName ⟨1, Nat.one_pos⟩ 1 "area").asVirtual

def shapeType : TypeDescriptor :=
  { TypeDescriptor.ofClass 1 "Shape" 4 with methodTable := [(areaMethod.id, areaMethod.id)] }

/-- A type that takes its method from its base. -/
def circleType : TypeDescriptor := { TypeDescriptor.ofClass 2 "Circle" 4 with baseType := some 1 }

def shapeTable : Table := ((Table.addType {} shapeType).addType circleType).addMethod areaMethod

def areaCall : Instruction :=
  { Instruction.placed 1 .callvirt [0, 0, 0, 0] with methodRef := some areaMethod.id }

/-- A body that calls the method on its own receiver. -/
def areaBody : MethodBody where
  method := areaMethod.id
  instructions := [.placed 0 .ldarg0 [], areaCall, .placed 6 .ret []]

def areaContext : EmitContext :=
  { tables := shapeTable, options := {}, policy := X86.backend.defaultPolicy, frame := dropFrame,
    method := areaMethod, endPosition := 7 }

def areaEffect : Effect := { popped := [.reference 4] }

theorem area_callsVirtual : CallsVirtual areaContext areaCall areaMethod where
  operation := rfl
  resolved := ⟨shapeType, rfl, rfl⟩
  virtual := rfl
  fits := by decide

/-- What the compiled method has to be: short, with the call from `base` on, and ready to be linked. -/
def compilesArea {I : Type} [TargetInstr I] [DecidableEq I] (backend : Backend I) (base : Nat) : Bool :=
  let call := (backend.emit areaContext areaCall areaEffect).code
  (compileMethod backend shapeTable {} areaBody).toOption.any fun m =>
    decide (m.symbol = areaMethod.symbol) && decide ((m.code.drop base).take call.length = call) &&
      decide (base ≤ m.code.length ∧ m.code.length < 100) && decide (boundLabels m.code).Nodup &&
      (link [m] shapeTable {} {}).isOk

/-- A program linked from one method that was compiled for the table of shapes. -/
theorem linkedProgram_shapes {I : Type} [TargetInstr I] {backend : Backend I} {body : MethodBody}
    {m : CompiledMethod I} {p : Program I} {linked : Store}
    (hcompiled : compileMethod backend shapeTable {} body = .ok m)
    (hlink : link [m] shapeTable {} {} = .ok (p, linked)) (hfits : p.code.size < codeLimit) :
    LinkedProgram backend shapeTable {} [m] p linked where
  built := .addMethod (.addType (.addType .empty _) _) _
  symbols := ⟨by decide, fun intrinsic => by cases intrinsic <;> decide⟩
  acyclic := Table.acyclic_of_lt (by decide)
  slots := show ∀ d ∈ shapeTable.types, ∀ pair ∈ d.methodTable, pair.1.val < 2 ^ 32 by decide
  layout := rfl
  compiled := compiled_singleton hcompiled
  link := ⟨{}, hlink⟩
  fits := hfits

theorem shapeTable_staticsFit : StaticsFit shapeTable 4 :=
  show ∀ field ∈ shapeTable.fields, field.isStatic = true → _ by decide

theorem linkedProgram_of_compilesArea {I : Type} [TargetInstr I] [DecidableEq I] (backend : Backend I)
    (base : Nat) (h : compilesArea backend base = true) :
    ∃ m p linked, LinkedProgram backend shapeTable {} [m] p linked ∧ m.symbol = areaMethod.symbol ∧
      Placed p base (backend.emit areaContext areaCall areaEffect).code := by
  let call := (backend.emit areaContext areaCall areaEffect).code
  have hat : compilesAt backend shapeTable areaBody call base = true ∧
      (compileMethod backend shapeTable {} areaBody).toOption.any
        (fun m => decide (m.symbol = areaMethod.symbol)) = true := by
    unfold compilesArea at h
    unfold compilesAt
    cases hcompiled : compileMethod backend shapeTable {} areaBody with
    | error e =>
      rw [hcompiled] at h
      cases h
    | ok m =>
      rw [hcompiled] at h
      simp only [Except.toOption, Option.any_some, Bool.and_eq_true] at h ⊢
      obtain ⟨⟨⟨⟨hsymbol, hcall⟩, hbase⟩, hnodup⟩, hlink⟩ := h
      exact ⟨⟨⟨⟨hcall, hbase⟩, hnodup⟩, hlink⟩, hsymbol⟩
  obtain ⟨m, p, linked, hcompiled, hlink, hfits, hplaced⟩ := exists_linked_of_compilesAt hat.1
  have hsymbol := hat.2
  rw [hcompiled] at hsymbol
  exact ⟨m, p, linked, linkedProgram_shapes hcompiled hlink hfits, of_decide_eq_true hsymbol, hplaced⟩

/-- Memory with a circle at the start of the heap and its address on the stack. -/
def circleStore (linked : Store) (type : UInt32) : Store :=
  (linked.withWord heapBase type).withWord (wordAddress 0) heapBase

theorem byte_circleStore (linked : Store) (type : UInt32) {c : Nat} (hc : c < 0x100000) :
    (circleStore linked type).memory.byte c = linked.memory.byte c := by
  have hheap : heapBase.toNat = 0x100000 := rfl
  have hstack : (wordAddress 0).toNat = 0x3FFFEC := rfl
  rw [circleStore, Store.withWord, Memory.byte_put_of_lt _ (by rw [hstack]; decide) (by omega),
    Store.withWord, Memory.byte_put_of_lt _ (by rw [hheap]; decide) (by omega)]

theorem keepsTypes_circleStore (tables : Table) (linked : Store) (type : UInt32) :
    KeepsTypes tables linked.memory (circleStore linked type).memory := by
  intro places stop hplaces c _ hc
  exact byte_circleStore linked type (Nat.lt_of_lt_of_le hc (placeTypes_le hplaces (by decide)))

theorem read_circleStore (linked : Store) (type : UInt32) :
    (circleStore linked type).memory.read heapBase 4 = .ok type := by
  have hheap : heapBase.toNat = 0x100000 := rfl
  have hstack : (wordAddress 0).toNat = 0x3FFFEC := rfl
  have hread : (linked.withWord heapBase type).memory.read heapBase 4 = .ok type :=
    Store.read_withWord (by decide) _ _
  rw [← hread]
  refine Memory.read_congr fun c _ hc => ?_
  rw [circleStore, Store.withWord, Memory.byte_put_of_lt _ (by rw [hstack]; decide) (by omega)]

theorem resolves_circle {I M : Type} {method : CompiledMethod I}
    {p : Program I} {linked : Store} (hsymbol : method.symbol = areaMethod.symbol) {type site : UInt32}
    (htype : p.types[circleType.id]? = some type) {cycle : EStateM Fault M Unit}
    {Called : UInt32 → M → Prop} {m : M}
    (h : Resolves cycle p shapeTable [method] areaMethod.id (circleStore linked type).memory heapBase site
      Called m) :
    Reaches cycle m (Called (codeAddress 0)) := by
  have hcircle : circleType ∈ shapeTable.types := by decide
  obtain ⟨ds, hds, hfound, -⟩ := h.found circleType hcircle type htype (read_circleStore linked type)
  obtain rfl : ds = [circleType, shapeType] := by
    have hbase : shapeTable.base? circleType = some shapeType := rfl
    have hroot : shapeTable.base? shapeType = none := rfl
    cases hds with
    | root hnone => cases hbase.symm.trans hnone
    | derived hsome hrest =>
      obtain rfl := Option.some.inj (hbase.symm.trans hsome)
      cases hrest with
      | root => rfl
      | derived hsome' => cases hroot.symm.trans hsome'
  have haddress : methodAddress shapeTable [method] areaMethod.id = codeAddress 0 := by
    have hmethod : shapeTable.method? areaMethod.id = some areaMethod := rfl
    simp [methodAddress, hmethod, bodyAddress?, placeMethods, hsymbol]
  rw [← haddress]
  exact hfound areaMethod.id rfl

/-- A circle has the area of its base. -/
theorem virtual_calls_follow_hierarchy_circle :
    (∃ method p linked type m, LinkedProgram X86.backend shapeTable {} [method] p linked ∧
      p.types[circleType.id]? = some type ∧
      X86.Calling 3 areaEffect.poppedBytes areaEffect.pushedBytes 4 heapBase m ∧
      m.store = circleStore linked type ∧
      Reaches (X86.Machine.cycle p) m (X86.Called m 0 29 (codeAddress 0))) ∧
    ∃ method p linked type m, LinkedProgram Mips.backend shapeTable {} [method] p linked ∧
      p.types[circleType.id]? = some type ∧ Mips.Calling 8 areaEffect.poppedBytes 4 heapBase m ∧
      m.store = circleStore linked type ∧
      Reaches (Mips.Machine.cycle p) m (Mips.Called m 0 43 (codeAddress 0)) := by
  obtain ⟨hx86, hmips⟩ := virtual_calls_follow_hierarchy shapeTable areaEffect rfl area_callsVirtual
    shapeTable_staticsFit
  constructor
  · obtain ⟨method, p, linked, hp, hsymbol, hplaced⟩ :=
      linkedProgram_of_compilesArea X86.backend 3 (by decide +kernel)
    obtain ⟨type, htype⟩ := hp.exists_type (d := circleType) (by decide)
    let m : X86.Machine :=
      X86.Machine.setReg { pc := codeAddress 3, store := circleStore linked type } .esp (wordAddress 0)
    have hsp : m.reg .esp = wordAddress 0 := rfl
    have hcalling : X86.Calling 3 areaEffect.poppedBytes areaEffect.pushedBytes 4 heapBase m :=
      ⟨rfl, Store.read_withWord (by decide) _ _, by rw [hsp]; decide, by rw [hsp]; decide⟩
    refine ⟨method, p, linked, type, m, hp, htype, hcalling, rfl, ?_⟩
    exact resolves_circle hsymbol htype
      (hx86 hp hplaced hcalling (keepsTypes_circleStore _ linked type))
  · obtain ⟨method, p, linked, hp, hsymbol, hplaced⟩ :=
      linkedProgram_of_compilesArea Mips.backend 8 (by decide +kernel)
    obtain ⟨type, htype⟩ := hp.exists_type (d := circleType) (by decide)
    let m : Mips.Machine := Mips.Machine.setReg
      { pc := codeAddress 8, npc := codeAddress 9, store := circleStore linked type } .sp (wordAddress 0)
    have hsp : m.reg .sp = wordAddress 0 := rfl
    have hcalling : Mips.Calling 8 areaEffect.poppedBytes 4 heapBase m :=
      ⟨rfl, rfl, rfl, by rw [hsp]; decide, by rw [hsp]; decide, Store.read_withWord (by decide) _ _,
        by decide, by rw [hsp]; decide⟩
    refine ⟨method, p, linked, type, m, hp, htype, hcalling, rfl, ?_⟩
    exact resolves_circle hsymbol htype
      (hmips rfl hp hplaced hcalling (keepsTypes_circleStore _ linked type))

end Shapes

/-! ## Static storage that wraps around -/

section Wrapping

/-- A virtual method that no type implements. -/
def tiltMethod : MethodDescriptor := (MethodDescriptor.ofName ⟨1, Nat.one_pos⟩ 1 "tilt").asVirtual

def brushType : TypeDescriptor := .ofClass 1 "Brush" 4

def inkType : TypeDescriptor := .ofClass 2 "Ink" 4

/-- A structure of 64 bytes less than a word can count. -/
def canvasType : TypeDescriptor := .composite 3 "Canvas" 0xFFFFFFC0

/-- A static field of the structure, and two strings. -/
def canvasTable : Table :=
  ((((((Table.addType {} brushType).addType inkType).addType canvasType).addField
    (.ofStatic 1 "canvas" 1 3)).addMethod tiltMethod).addString (.ofValue 1 "abcd")).addString
    (.ofValue 2 "efgh")

def tiltCall : Instruction :=
  { Instruction.placed 1 .callvirt [0, 0, 0, 0] with methodRef := some tiltMethod.id }

def tiltBody : MethodBody where
  method := tiltMethod.id
  instructions := [.placed 0 .ldarg0 [], tiltCall, .placed 6 .ret []]

def tiltContext : EmitContext := { areaContext with tables := canvasTable, method := tiltMethod }

theorem tilt_callsVirtual : CallsVirtual tiltContext tiltCall tiltMethod where
  operation := rfl
  resolved := ⟨brushType, rfl, rfl⟩
  virtual := rfl
  fits := by decide

theorem canvasTable_built : canvasTable.Built :=
  .addString (.addString (.addMethod (.addField (.addType (.addType (.addType .empty _) _) _) _) _) _) _

/-- A program linked from one method that was compiled for the table with the structure. -/
theorem linkedProgram_canvas {I : Type} [TargetInstr I] {backend : Backend I} {body : MethodBody}
    {m : CompiledMethod I} {p : Program I} {linked : Store}
    (hcompiled : compileMethod backend canvasTable {} body = .ok m)
    (hlink : link [m] canvasTable {} {} = .ok (p, linked)) (hfits : p.code.size < codeLimit) :
    LinkedProgram backend canvasTable {} [m] p linked where
  built := canvasTable_built
  symbols := ⟨by decide, fun intrinsic => by cases intrinsic <;> decide⟩
  acyclic := Table.acyclic_of_lt (by decide)
  slots := show ∀ d ∈ canvasTable.types, ∀ pair ∈ d.methodTable, pair.1.val < 2 ^ 32 by decide
  layout := rfl
  compiled := compiled_singleton hcompiled
  link := ⟨{}, hlink⟩
  fits := hfits

/-- In the first type the lengths of two strings stand in place of the base and of the table that the
method table goes on with. -/
structure Overwritten (memory : Memory) : Prop where
  table : memory.read (0x1000 + 8) 4 = .ok 0x1010
  base : memory.read (0x1000 + 12) 4 = .ok 4
  stop : memory.read 0x1010 4 = .ok 0
  parent : memory.read (0x1010 + 4) 4 = .ok 4

theorem Overwritten.congr {memory memory' : Memory} (h : Overwritten memory)
    (hsame : ∀ c < 0x100000, memory'.byte c = memory.byte c) : Overwritten memory' := by
  have hread : ∀ a : UInt32, a.toNat < 0xFFFFC → memory'.read a 4 = memory.read a 4 := fun a ha =>
    Memory.read_congr fun c _ hc => hsame c (by omega)
  exact ⟨(hread _ (by decide)).trans h.table, (hread _ (by decide)).trans h.base,
    (hread _ (by decide)).trans h.stop, (hread _ (by decide)).trans h.parent⟩

/-- The end of the static field wraps around into the first type, and strings are placed there. -/
theorem canvas_overwrites {I : Type} [TargetInstr I] {methods : List (CompiledMethod I)}
    {config : RunConfig} {p : Program I} {linked : Store}
    (h : link methods canvasTable {} config = .ok (p, linked)) :
    (p.types[brushType.id]? = some 0x1000 ∧ p.types[inkType.id]? = some 0x1018) ∧
      Overwritten linked.memory := by
  obtain ⟨places, next, memory, statics, next', strings, stop, htypes, hstatics, hstrings, hlengths⟩ :=
    link_data h rfl
  let brush : TypePlace := ⟨brushType, 0x1000, 0x1010⟩
  let ink : TypePlace := ⟨inkType, 0x1018, 0x1028⟩
  have hplaces : placeTypes 16 dataBase canvasTable.types =
      .ok ([brush, ink, ⟨canvasType, 0x1030, 0x1040⟩], 0x1048) := rfl
  obtain ⟨rfl, rfl⟩ := Prod.mk.inj (Except.ok.inj (htypes.placed.symm.trans hplaces))
  have hfield : placeStatics canvasTable 4 0x1048 (canvasTable.fields.filter FieldDescriptor.isStatic) =
      .ok ([(_, 0x1048)], 0x1008) := rfl
  obtain ⟨-, rfl⟩ := Prod.mk.inj (Except.ok.inj (hstatics.symm.trans hfield))
  have hliterals : placeStrings 0x1008 canvasTable.strings =
      .ok ([(.ofValue 1 "abcd", 0x1008), (.ofValue 2 "efgh", 0x1010)], 0x1018) := rfl
  obtain ⟨rfl, -⟩ := Prod.mk.inj (Except.ok.inj (hstrings.symm.trans hliterals))
  have hwords : writeWords memory [(0x100C, 4), (0x1014, 4)] = .ok linked.memory := hlengths
  have hlength : ∀ pair ∈ [((0x100C : UInt32), (4 : UInt32)), (0x1014, 4)],
      linked.memory.read pair.1 4 = .ok pair.2 := fun _ =>
    read_of_writeWords hwords (List.pairwise_pair.mpr (by decide))
  -- the words beside the two lengths are those of the type
  have hkeeps : ∀ a v : UInt32, memory.read a 4 = .ok v → a.toNat = 0x1008 ∨ a.toNat = 0x1010 →
      linked.memory.read a 4 = .ok v := fun a v hread ha => by
    rw [← hread]
    refine Memory.read_congr fun c hle hlt => byte_writeWords hwords fun pair hpair => ?_
    rcases List.mem_pair.mp hpair with rfl | rfl
    · show c < 0x100C ∨ 0x100C + 4 ≤ c
      omega
    · show c < 0x1014 ∨ 0x1014 + 4 ≤ c
      omega
  have hbrush : brush ∈ [brush, ink, ⟨canvasType, 0x1030, 0x1040⟩] := List.mem_cons_self
  refine ⟨⟨htypes.address_of_place canvasTable_built hbrush,
    htypes.address_of_place canvasTable_built (List.mem_cons_of_mem _ List.mem_cons_self)⟩,
    hkeeps _ _ ?_ (.inl rfl), hlength (0x100C, 4) List.mem_cons_self, hkeeps _ _ ?_ (.inr rfl),
    hlength (0x1014, 4) (List.mem_cons_of_mem _ List.mem_cons_self)⟩
  · exact htypes.word_of_place hbrush (List.mem_of_getElem? (i := 2) rfl)
  · exact htypes.word_of_place hbrush (List.mem_of_getElem? (i := 4) rfl)

/-- A call of the method on a brush does not find that it is missing: the search goes on at the length of
a string. -/
theorem virtual_call_reads_string_length :
    ∃ method p linked m, LinkedProgram X86.backend canvasTable {} [method] p linked ∧
      Placed p 3 (X86.backend.emit tiltContext tiltCall areaEffect).code ∧
      X86.Calling 3 areaEffect.poppedBytes areaEffect.pushedBytes 4 heapBase m ∧
      KeepsTypes canvasTable linked.memory m.store.memory ∧
      Ends (X86.Machine.cycle p) (.memory 4) m ∧
      ¬Resolves (X86.Machine.cycle p) p canvasTable [method] tiltMethod.id m.store.memory heapBase
        (codeAddress 6) (X86.Called m 0 29) m := by
  have hcompiles : compilesAt X86.backend canvasTable tiltBody
      (X86.backend.emit tiltContext tiltCall areaEffect).code 3 = true := by decide +kernel
  obtain ⟨method, p, linked, hcompiled, hlink, hfits, hplaced⟩ := exists_linked_of_compilesAt hcompiles
  obtain ⟨⟨htype, -⟩, hlinked⟩ := canvas_overwrites hlink
  let m : X86.Machine :=
    X86.Machine.setReg { pc := codeAddress 3, store := circleStore linked 0x1000 } .esp (wordAddress 0)
  have hsp : m.reg .esp = wordAddress 0 := rfl
  have hunmapped : ∀ memory : Memory, memory.read 4 4 = .error (.memory 4) := fun _ => rfl
  have hthis : m.store.memory.read (wordAddress 0) 4 = .ok heapBase :=
    Store.read_withWord (by decide) _ _
  have hobject : m.store.memory.read heapBase 4 = .ok 0x1000 := read_circleStore linked 0x1000
  have htypes : Overwritten m.store.memory := hlinked.congr fun c hc => byte_circleStore linked _ hc
  have hends : Ends (X86.Machine.cycle p) (.memory 4) m := by
    have hcode := hplaced
    rw [X86.emit_callVirtual tilt_callsVirtual] at hcode
    have hlimit := Nat.le_of_lt hfits
    have hreceiver : (Int32.ofNat areaEffect.poppedBytes -
        Int32.ofNat tiltContext.options.pointerSize).toUInt32 + m.reg .esp = wordAddress 0 := by
      rw [hsp]
      decide
    refine (X86.virtualCall_table hlimit hcode rfl rfl (hreceiver ▸ hthis) (by decide) hobject htypes.table).trans
      fun m₁ h₁ => ?_
    refine (X86.search_parent hlimit hcode h₁ (by decide) htypes.stop htypes.parent (by decide)).trans
      fun m₂ h₂ => ?_
    exact X86.search_faults hlimit hcode h₂ (hunmapped _)
  refine ⟨method, p, linked, m, linkedProgram_canvas hcompiled hlink hfits, hplaced,
    ⟨rfl, hthis, by rw [hsp]; decide, by rw [hsp]; decide⟩, keepsTypes_circleStore _ _ _, hends,
    fun hresolves => ?_⟩
  obtain ⟨ds, hds, -, hmissing⟩ := hresolves.found brushType (by decide) 0x1000 htype hobject
  obtain rfl : ds = [brushType] := by
    cases hds with
    | root => rfl
    | derived hbase => cases hbase
  cases hends.unique (hmissing rfl)

end Wrapping

end Stencil
