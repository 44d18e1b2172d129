import Stencil.Mips.Storage
import Stencil.Proofs.Access.Copies

/-!
# Values as instructions find them

Fields, static fields, elements and what raw pointers point at are values at places in memory. What a
target has to do about them is said once for all: load the words of the value, store its bytes, clear
them, and check an array and an index before anything is read through them.
-/

namespace Stencil

open AddressMap

/-! ## Places -/

/-- Where instructions find values in memory. -/
inductive Site where
  | field
  | static
  | indirect (kind : ValueKind)
  | element (kind : ValueKind)

def Site.load : Site → Operation
  | .field => .loadField
  | .static => .loadStatic
  | .indirect kind => .loadIndirect kind
  | .element kind => .loadElement kind

def Site.store : Site → Operation
  | .field => .storeField
  | .static => .storeStatic
  | .indirect kind => .storeIndirect kind
  | .element kind => .storeElement kind

/-- A value in memory as an instruction finds it. -/
structure Place where
  /-- The words that lead to the value, the top of the stack first. -/
  operands : List UInt32
  address : UInt32
  access : Access
  /-- The alignment that code counts on where it matters. -/
  align : Nat
  /-- The bytes that are read on the way. -/
  consulted : Set Nat

namespace Place

variable (place : Place)

def bytes : Set Nat := Set.Ico place.address.toNat (place.address.toNat + place.access.storage)

def wordCount : Nat := (place.access.storage + 3) / 4

end Place

section Elements

variable (ctx : EmitContext)

def lengthAddress (array : UInt32) : UInt32 := array + UInt32.ofNat ctx.options.layout.arrayLength

def lengthBytes (array : UInt32) : Set Nat :=
  Set.Ico (lengthAddress ctx array).toNat ((lengthAddress ctx array).toNat + 4)

def elementAddress (array index : UInt32) (storage : Nat) : UInt32 :=
  array + UInt32.ofNat ctx.options.layout.arrayHeader + index * UInt32.ofNat storage

def elementPlace (array index : UInt32) (access : Access) : Place where
  operands := [index, array]
  address := elementAddress ctx array index access.storage
  access := access
  align := Mips.elementAlignment ctx access
  consulted := lengthBytes ctx array

end Elements

section Sites

variable {I R M : Type} [Runner I R M]

/-- The length of the array can be read, where it matters from an aligned address. -/
structure HasLength (I : Type) {R M : Type} [Runner I R M] (ctx : EmitContext) (memory : Memory)
    (array length : UInt32) : Prop where
  read : memory.read (lengthAddress ctx array) 4 = .ok length
  aligned : Runner.strict I = true → (lengthAddress ctx array).toNat % 4 = 0

def InRange (index length : UInt32) : Prop := 0 ≤ index.toInt32 ∧ index.toInt32 < length.toInt32

/-- The place of the value that an instruction is about, if its checks pass. -/
inductive Locates (ctx : EmitContext) (i : Instruction) (p : Program I) (memory : Memory) : Site → Place → Prop
  | field {field : FieldDescriptor} {access : Access} {object : UInt32}
      (hfield : ctx.fieldAccess i = .ok (field, access)) (hobject : object ≠ 0) :
      Locates ctx i p memory .field
        { operands := [object], address := object + UInt32.ofNat field.offset, access,
          align := Mips.offsetAlignment field.offset, consulted := ∅ }
  | static {field : FieldDescriptor} {access : Access} {a : UInt32}
      (hfield : ctx.fieldAccess i = .ok (field, access)) (hresolve : p.resolve field.symbol = .ok a) :
      Locates ctx i p memory .static { operands := [], address := a, access, align := 4, consulted := ∅ }
  | indirect {kind : ValueKind} {access : Access} {a : UInt32} (haccess : ctx.kindAccess i kind = .ok access)
      (hguard : ctx.policy.guardIndirect = true → a ≠ 0) :
      Locates ctx i p memory (.indirect kind)
        { operands := [a], address := a, access, align := Mips.indirectAlignment ctx access, consulted := ∅ }
  | element {kind : ValueKind} {access : Access} {array index length : UInt32}
      (haccess : ctx.kindAccess i kind = .ok access) (harray : array ≠ 0)
      (hlength : HasLength I ctx memory array length) (hindex : InRange index length) :
      Locates ctx i p memory (.element kind) (elementPlace ctx array index access)

end Sites

/-! ## Words on the stack -/

section Stack

variable {I R M : Type} [Runner I R M] {s t : Snapshot R} {words before rest : List UInt32} {w : UInt32}
  {n : Nat}

/-- So many words of the stack below and above its pointer. -/
def slots (sp : UInt32) (below above : Nat) : Set Nat :=
  Set.Ico (sp.toNat - 4 * below) (sp.toNat + 4 * above)

theorem slots_subset {sp : UInt32} {below below' above above' : Nat} (hbelow : below ≤ below')
    (habove : above ≤ above') : slots sp below above ⊆ slots sp below' above' :=
  Set.Ico_subset_Ico (by omega) (by omega)

/-- The words lie on top of the stack, which is aligned where that matters. -/
structure OnStack (I : Type) {R M : Type} [Runner I R M] (words : List UInt32) (s : Snapshot R) : Prop where
  mapped : Memory.mapped (s.regs (Runner.sp I)) (4 * words.length) = true
  words : s.memory.wordsAt (s.regs (Runner.sp I)).toNat words.length = words
  aligned : Runner.strict I = true → (s.regs (Runner.sp I)).toNat % 4 = 0

theorem OnStack.toNat (h : OnStack I words s) (hn : n ≤ words.length) :
    (s.regs (Runner.sp I) + UInt32.ofNat (4 * n)).toNat = (s.regs (Runner.sp I)).toNat + 4 * n ∧
      0x1000 ≤ (s.regs (Runner.sp I)).toNat ∧
      (s.regs (Runner.sp I)).toNat + 4 * words.length ≤ 0x400000 := by
  obtain ⟨hlow, hhigh⟩ := Memory.mapped_iff.mp h.mapped
  exact ⟨toNat_add_ofNat (by omega), hlow, hhigh⟩

theorem OnStack.read (h : OnStack I (before ++ w :: rest) s) :
    s.memory.read (s.regs (Runner.sp I) + UInt32.ofNat (4 * before.length)) 4 = .ok w := by
  have hlength : (before ++ w :: rest).length = before.length + (rest.length + 1) := by
    rw [List.length_append, List.length_cons]
  obtain ⟨hplace, hlow, hhigh⟩ := h.toNat (n := before.length) (by omega)
  have hwords := h.words
  rw [hlength] at hwords hhigh
  exact Memory.read_of_wordsAt hwords (Memory.mapped_iff.mpr (by omega)) (by omega)

theorem OnStack.slot (h : OnStack I (before ++ w :: rest) s) :
    Set.Ico (s.regs (Runner.sp I) + UInt32.ofNat (4 * before.length)).toNat
      ((s.regs (Runner.sp I) + UInt32.ofNat (4 * before.length)).toNat + 4) ⊆
        slots (s.regs (Runner.sp I)) 0 (before.length + 1) := by
  obtain ⟨hplace, -⟩ := h.toNat (n := before.length) (by rw [List.length_append]; omega)
  exact Set.Ico_subset_Ico (by omega) (by omega)

theorem OnStack.slot_aligned (h : OnStack I (before ++ w :: rest) s) (hstrict : Runner.strict I = true) :
    (s.regs (Runner.sp I) + UInt32.ofNat (4 * before.length)).toNat % 4 = 0 := by
  obtain ⟨hplace, -⟩ := h.toNat (n := before.length) (by rw [List.length_append]; omega)
  have hbottom := h.aligned hstrict
  omega

variable [DecidableEq R]

def Snapshot.dropped (I : Type) {R M : Type} [DecidableEq R] [Runner I R M] (s : Snapshot R) (count : Nat) :
    Snapshot R :=
  s.set (Runner.sp I) (s.regs (Runner.sp I) + UInt32.ofNat (4 * count))

theorem Scratched.dropped_zero {scratch : List R} : Scratched scratch (s.dropped I 0) s := by
  unfold Snapshot.dropped Snapshot.set
  rw [Nat.mul_zero, show UInt32.ofNat 0 = 0 from rfl, UInt32.add_zero, Function.update_eq_self]
  exact .refl

theorem Scratched.pop {scratch : List R} (h : Scratched scratch (s.dropped I n) t) (hsp : Runner.sp I ∉ scratch) :
    Scratched scratch (s.dropped I (n + 1)) (t.set (Runner.sp I) (t.regs (Runner.sp I) + 4)) where
  regs r hr := by
    have hpointer := h.regs (Runner.sp I) hsp
    by_cases hne : r = Runner.sp I
    · rw [hne, Snapshot.set_self, hpointer, Snapshot.dropped, Snapshot.dropped, Snapshot.set_self,
        Snapshot.set_self, Nat.mul_succ, UInt32.ofNat_add, ← UInt32.add_assoc]
      rfl
    · have hkept := h.regs r hr
      rw [Snapshot.dropped, Snapshot.set_of_ne _ hne] at hkept ⊢
      rw [Snapshot.set_of_ne _ hne, hkept]
  store := h.store

theorem OnStack.dropped_aligned {scratch : List R} (h : OnStack I words s) (hn : n ≤ words.length)
    (hsp : Runner.sp I ∉ scratch) (ht : Scratched scratch (s.dropped I n) t) (hstrict : Runner.strict I = true) :
    (t.regs (Runner.sp I)).toNat % 4 = 0 := by
  have hbottom := h.aligned hstrict
  rw [ht.regs _ hsp, Snapshot.dropped, Snapshot.set_self, (h.toNat hn).1]
  omega

theorem Stored.of_dropped {scratch : List R} {count a k : Nat} {bytes : Nat → UInt8}
    (h : Stored (Runner.sp I) scratch count a n bytes (s.dropped I k) t) :
    Stored (Runner.sp I) scratch (k + count) a n bytes s t where
  pointer := by
    rw [h.pointer, Snapshot.dropped, Snapshot.set_self, Nat.mul_add, UInt32.ofNat_add, UInt32.add_assoc]
  regs r hr hscratch := by rw [h.regs r hr hscratch, Snapshot.dropped, Snapshot.set_of_ne _ hr]
  memory := h.memory
  heap := h.heap

end Stack

/-! ## What a target does about them -/

section Targets

variable {I R M : Type} [DecidableEq R] [Runner I R M] [Storing M] [TargetInstr I]

/-- The machine is about to run the template of the instruction, with the words on top of its stack. -/
structure Ready (backend : Backend I) (ctx : EmitContext) (i : Instruction) (e : Effect) (p : Program I)
    (base : Nat) (words : List UInt32) (m : M) : Prop where
  wellFormed : p.WellFormed
  emitted : (backend.emit ctx i e).failure = none
  placed : Placed p base (backend.emit ctx i e).code
  here : Runner.At I m base
  stack : OnStack I words (snap I m)

/-- The machine is past the template of the instruction. -/
def Past (backend : Backend I) (ctx : EmitContext) (i : Instruction) (e : Effect) (base : Nat) (m : M) : Prop :=
  Runner.At I m (base + (backend.emit ctx i e).code.length)

section Runs

variable {backend : Backend I} {ctx : EmitContext} {i : Instruction} {e : Effect} {p : Program I} {base : Nat}
  {words : List UInt32} {m : M} {touched : Set Nat}

omit [DecidableEq R] in
/-- What holds behind the code of the template is reached. -/
theorem Ready.reaches {Q : Snapshot R → Prop} (h : Ready backend ctx i e p base words m)
    (hrun : Runs p touched (backend.emit ctx i e).code (snap I m) Q fun _ _ => False) :
    ReachesWithin (Runner.cycle p) touched m fun m' => Past backend ctx i e base m' ∧ Q (snap I m') :=
  hrun base m h.placed h.here rfl

omit [DecidableEq R] in
/-- What holds behind a first part of the code is reached. -/
theorem Ready.reaches_front {Q : Snapshot R → Prop} {front back : List I}
    (h : Ready backend ctx i e p base words m) (hcode : (backend.emit ctx i e).code = front ++ back)
    (hrun : Runs p touched front (snap I m) Q fun _ _ => False) :
    ReachesWithin (Runner.cycle p) touched m fun m' => Runner.At I m' (base + front.length) ∧ Q (snap I m') :=
  hrun base m (hcode ▸ h.placed).front h.here rfl

omit [DecidableEq R] in
theorem Ready.ends {E : Fault → Snapshot R → Prop} (h : Ready backend ctx i e p base words m)
    (hrun : Runs p touched (backend.emit ctx i e).code (snap I m) (fun _ => False) E) :
    EndsWithin (Runner.cycle p) touched m fun fault m' => E fault (snap I m') :=
  (hrun base m h.placed h.here rfl).mono (fun _ hpast => hpast.2) fun _ _ hfault => hfault

end Runs

/-- The value is mapped, aligned where that matters, and apart from the words that are pushed. -/
structure Loadable (I : Type) {R M : Type} [DecidableEq R] [Runner I R M] (place : Place) (s : Snapshot R) :
    Prop where
  mapped : Memory.mapped place.address place.access.storage = true
  aligned : Runner.strict I = true → place.address.toNat % place.align = 0
  room : Room ((s.dropped I place.operands.length).regs (Runner.sp I)) place.wordCount
  disjoint : Disjoint place.bytes
    (slots ((s.dropped I place.operands.length).regs (Runner.sp I)) place.wordCount 0)

/-- The value is mapped, aligned where that matters, and apart from the words that are popped. -/
structure Storable (I : Type) {R M : Type} [Runner I R M] (place : Place) (words : List UInt32)
    (s : Snapshot R) : Prop where
  mapped : Memory.mapped place.address place.access.storage = true
  aligned : Runner.strict I = true → place.address.toNat % place.align = 0
  enough : place.wordCount ≤ words.length
  disjoint : Disjoint place.bytes (slots (s.regs (Runner.sp I)) 0 place.wordCount)

/-- What a load may touch: the value, what leads to it, and the words that come and go. -/
def Place.loadTouches (place : Place) (sp : UInt32) : Set Nat :=
  place.consulted ∪ place.bytes ∪ slots sp (place.wordCount - place.operands.length) place.operands.length

/-- What a store may touch: the value, what leads to it, and the words on the stack. -/
def Place.storeTouches (place : Place) (sp : UInt32) (words : List UInt32) : Set Nat :=
  place.consulted ∪ place.bytes ∪ slots sp 0 words.length

namespace Place

variable (place : Place) (sp : UInt32) {value rest : List UInt32}

theorem consulted_subset_load : place.consulted ⊆ place.loadTouches sp :=
  Set.subset_union_left.trans Set.subset_union_left

theorem slots_subset_load : slots sp 0 place.operands.length ⊆ place.loadTouches sp :=
  (slots_subset (Nat.zero_le _) (Nat.le_refl _)).trans Set.subset_union_right

theorem consulted_subset_store {words : List UInt32} : place.consulted ⊆ place.storeTouches sp words :=
  Set.subset_union_left.trans Set.subset_union_left

theorem slots_subset_store : slots sp 0 (value.length + place.operands.length) ⊆
    place.storeTouches sp (value ++ (place.operands ++ rest)) := by
  refine (slots_subset (Nat.le_refl 0) ?_).trans Set.subset_union_right
  rw [List.length_append, List.length_append]
  omega

end Place

omit [Storing M] [TargetInstr I] in
theorem Loadable.pushable {place : Place} {rest : List UInt32} {s t : Snapshot R} {scratch : List R}
    (h : Loadable I place s) (hstack : OnStack I (place.operands ++ rest) s) (hsp : Runner.sp I ∉ scratch)
    (ht : Scratched scratch (s.dropped I place.operands.length) t) :
    Pushable (Runner.sp I) (place.loadTouches (s.regs (Runner.sp I))) place.address place.access.storage t := by
  have hpointer := ht.regs (Runner.sp I) hsp
  obtain ⟨hplace, -⟩ := hstack.toNat (n := place.operands.length) (by rw [List.length_append]; omega)
  have htop : (t.regs (Runner.sp I)).toNat =
      (s.regs (Runner.sp I)).toNat + 4 * place.operands.length := by
    rw [hpointer, Snapshot.dropped, Snapshot.set_self, hplace]
  refine ⟨h.mapped, ?_, hpointer ▸ h.room, ?_, hpointer ▸ h.disjoint⟩
  · exact Set.subset_union_right.trans Set.subset_union_left
  · refine Set.Subset.trans (Set.Ico_subset_Ico ?_ ?_) Set.subset_union_right
    · unfold Place.wordCount
      omega
    · omega

omit [DecidableEq R] [Storing M] [TargetInstr I] in
theorem Storable.poppable {place : Place} {words : List UInt32} {s t : Snapshot R} {scratch : List R}
    (h : Storable I place words s) (hstack : OnStack I words s) (hsp : Runner.sp I ∉ scratch)
    (ht : Scratched scratch s t) :
    Poppable (Runner.sp I) (place.storeTouches (s.regs (Runner.sp I)) words) place.address place.access.storage
      t := by
  have hpointer := ht.regs (Runner.sp I) hsp
  have henough : (place.access.storage + 3) / 4 ≤ words.length := h.enough
  obtain ⟨hlow, hhigh⟩ := Memory.mapped_iff.mp hstack.mapped
  rw [← hpointer] at hlow hhigh
  refine ⟨h.mapped, ?_, Memory.mapped_iff.mpr (by omega), ?_, hpointer ▸ h.disjoint⟩
  · exact Set.subset_union_right.trans Set.subset_union_left
  · rw [hpointer]
    exact (slots_subset (Nat.le_refl 0) henough).trans Set.subset_union_right

/-- The operands are replaced by the words of the value. Nothing is touched but the value, what leads to it
and the stack. -/
def LoadsAt (backend : Backend I) (scratch : List R) (sign : Access → Bool) (ctx : EmitContext)
    (i : Instruction) (e : Effect) (p : Program I) (base : Nat) (place : Place) (m : M) : Prop :=
  ReachesWithin (Runner.cycle p) (place.loadTouches ((snap I m).regs (Runner.sp I))) m fun m' =>
    Past backend ctx i e base m' ∧
      Pushed (Runner.sp I) scratch
        (loadedWords (sign place.access) place.access.storage
          ((snap I m).memory.valueAt place.address.toNat place.access.storage))
        ((snap I m).dropped I place.operands.length) (snap I m')

/-- The words are popped and written to the value's bytes, and the operands are dropped. Nothing is touched
but the value, what leads to it and the words. -/
def StoresAt (backend : Backend I) (scratch : List R) (ctx : EmitContext) (i : Instruction) (e : Effect)
    (p : Program I) (base : Nat) (place : Place) (words : List UInt32) (m : M) : Prop :=
  ReachesWithin (Runner.cycle p) (place.storeTouches ((snap I m).regs (Runner.sp I)) words) m
    fun m' => Past backend ctx i e base m' ∧
      Stored (Runner.sp I) scratch (place.wordCount + place.operands.length) place.address.toNat
        place.access.storage (fun j => (snap I m).memory.byte (((snap I m).regs (Runner.sp I)).toNat + j))
        (snap I m) (snap I m')

def LoadsValues (backend : Backend I) (scratch : List R) (sign : Access → Bool) : Prop :=
  ∀ {ctx : EmitContext} {i : Instruction} {e : Effect} {p : Program I} {base : Nat} {site : Site}
    {place : Place} {rest : List UInt32} {m : M},
    i.op.operation = site.load → Ready backend ctx i e p base (place.operands ++ rest) m →
    Locates ctx i p (snap I m).memory site place → Loadable I place (snap I m) →
    LoadsAt backend scratch sign ctx i e p base place m

def StoresValues (backend : Backend I) (scratch : List R) : Prop :=
  ∀ {ctx : EmitContext} {i : Instruction} {e : Effect} {p : Program I} {base : Nat} {site : Site}
    {place : Place} {value rest : List UInt32} {m : M},
    i.op.operation = site.store → (e.operand 0).size = 4 * value.length →
    Ready backend ctx i e p base (value ++ (place.operands ++ rest)) m →
    Locates ctx i p (snap I m).memory site place →
    Storable I place (value ++ (place.operands ++ rest)) (snap I m) →
    StoresAt backend scratch ctx i e p base place (value ++ (place.operands ++ rest)) m

def ClearsValues (backend : Backend I) (scratch : List R) : Prop :=
  ∀ {ctx : EmitContext} {i : Instruction} {e : Effect} {p : Program I} {base : Nat} {access : Access}
    {a : UInt32} {rest : List UInt32} {m : M},
    i.op.operation = .initObject → ctx.typeAccess i = .ok access →
    (ctx.policy.guardIndirect = true → a ≠ 0) → Ready backend ctx i e p base (a :: rest) m →
    Memory.mapped a access.storage = true →
    (Runner.strict I = true → a.toNat % Mips.indirectAlignment ctx access = 0) →
    ReachesWithin (Runner.cycle p)
      (Set.Ico a.toNat (a.toNat + access.storage) ∪ slots ((snap I m).regs (Runner.sp I)) 0 1) m
      fun m' => Past backend ctx i e base m' ∧
        Stored (Runner.sp I) scratch 1 a.toNat access.storage (fun _ => 0) (snap I m) (snap I m')

/-! ## Checks of elements -/

/-- What an instruction wants with an element of an array. -/
inductive ElementUse where
  | load (kind : ValueKind)
  | address
  | store (kind : ValueKind)

namespace ElementUse

def operation : ElementUse → Operation
  | .load kind => .loadElement kind
  | .address => .loadElementAddress
  | .store kind => .storeElement kind

def access (use : ElementUse) (ctx : EmitContext) (i : Instruction) : Except CompileError Access :=
  match use with
  | .load kind | .store kind => ctx.kindAccess i kind
  | .address => ctx.typeAccess i

/-- Bytes of the value that lies on top of the index. -/
def valueBytes (use : ElementUse) (e : Effect) : Nat :=
  match use with
  | .load _ | .address => 0
  | .store _ => (e.operand 0).size

/-- Operands that are popped before they are checked; those of a store stay under the value. -/
def popped : ElementUse → Nat
  | .load _ | .address => 2
  | .store _ => 0

/-- Free words that a failing check needs below the stack pointer; operands that are popped leave room. -/
def free : ElementUse → Nat
  | .load _ | .address => 0
  | .store _ => 1

end ElementUse

/-- The machine is about to run the template of an instruction on an element: an array lies under its
index, and the index under the value to be stored. -/
structure Indexes (backend : Backend I) (ctx : EmitContext) (i : Instruction) (e : Effect) (p : Program I)
    (base : Nat) (use : ElementUse) (access : Access) (value : List UInt32) (index array : UInt32)
    (rest : List UInt32) (m : M) : Prop where
  operation : i.op.operation = use.operation
  access : use.access ctx i = .ok access
  size : use.valueBytes e = 4 * value.length
  ready : Ready backend ctx i e p base (value ++ ([index, array] ++ rest)) m
  room : Room ((snap I m).regs (Runner.sp I)) use.free

/-- Where nothing is stored there is no value on top of the index. -/
theorem nil_of_valueBytes {value : List UInt32} (h : 0 = 4 * value.length) : value = [] :=
  List.length_eq_zero_iff.mp (by omega)

/-- The stack as far as the checks of an element look. -/
def checkedSlots (I : Type) {R M : Type} [Runner I R M] [Storing M] (use : ElementUse) (value : List UInt32)
    (m : M) : Set Nat :=
  slots ((snap I m).regs (Runner.sp I)) use.free (value.length + 2)

theorem Indexes.fails {backend : Backend I} {ctx : EmitContext} {i : Instruction} {e : Effect} {p : Program I}
    {base : Nat} {use : ElementUse} {access : Access} {value : List UInt32} {index array : UInt32}
    {rest : List UInt32} {m : M} {t : Snapshot R} {scratch : List R}
    (h : Indexes backend ctx i e p base use access value index array rest m) (hsp : Runner.sp I ∉ scratch)
    (ht : Scratched scratch ((snap I m).dropped I use.popped) t) :
    Room (t.regs (Runner.sp I)) 1 ∧
      Set.Ico ((t.regs (Runner.sp I)).toNat - 4) (t.regs (Runner.sp I)).toNat ⊆ checkedSlots I use value m := by
  have hpointer := (ht.regs (Runner.sp I) hsp).trans (Snapshot.set_self ..)
  have hlength : (value ++ ([index, array] ++ rest)).length = value.length + 2 + rest.length := by
    simp only [List.length_append, List.length_cons, List.length_nil]
    omega
  have hpopped : use.popped ≤ (value ++ ([index, array] ++ rest)).length := by
    rw [hlength]
    cases use <;> simp only [ElementUse.popped] <;> omega
  obtain ⟨hplace, hlow, hhigh⟩ := h.ready.stack.toNat hpopped
  rw [← hpointer] at hplace
  rw [hlength] at hhigh
  have hfree := (h.room.toNat).2.2
  unfold checkedSlots slots
  refine ⟨.one ?_ ?_, Set.Ico_subset_Ico ?_ ?_⟩
  all_goals cases use <;> simp only [ElementUse.popped, ElementUse.free] at hplace hfree ⊢ <;> omega

section Found

variable {backend : Backend I} {ctx : EmitContext} {i : Instruction} {e : Effect} {p : Program I} {base : Nat}
  {kind : ValueKind} {access : Access} {value : List UInt32} {index array length : UInt32} {rest : List UInt32}
  {m : M} {scratch : List R}

theorem LoadsValues.element {sign : Access → Bool} (hloads : LoadsValues backend scratch sign)
    (h : Indexes backend ctx i e p base (.load kind) access [] index array rest m) (harray : array ≠ 0)
    (hlength : HasLength I ctx (snap I m).memory array length) (hindex : InRange index length)
    (hloadable : Loadable I (elementPlace ctx array index access) (snap I m)) :
    LoadsAt backend scratch sign ctx i e p base (elementPlace ctx array index access) m := by
  have hop : i.op.operation = (Site.element kind).load := h.operation
  exact hloads hop h.ready (.element h.access harray hlength hindex) hloadable

omit [DecidableEq R] in
theorem StoresValues.element (hstores : StoresValues backend scratch)
    (h : Indexes backend ctx i e p base (.store kind) access value index array rest m) (harray : array ≠ 0)
    (hlength : HasLength I ctx (snap I m).memory array length) (hindex : InRange index length)
    (hstorable : Storable I (elementPlace ctx array index access) (value ++ ([index, array] ++ rest)) (snap I m)) :
    StoresAt backend scratch ctx i e p base (elementPlace ctx array index access)
      (value ++ ([index, array] ++ rest)) m := by
  have hop : i.op.operation = (Site.element kind).store := h.operation
  exact hstores hop h.size h.ready (.element h.access harray hlength hindex) hstorable

end Found

/-- Arrays and indices are checked before anything else is touched, and then lead to the element. Each target
says for itself what it means for code to aim at an element. -/
structure ChecksElements (backend : Backend I) (scratch : List R) (sign : Access → Bool)
    (aims : Program I → ElementUse → Access → UInt32 → List I → Snapshot R → Prop) : Prop where
  /-- Nothing is read through a null pointer. -/
  null {ctx : EmitContext} {i : Instruction} {e : Effect} {p : Program I} {base : Nat} {use : ElementUse}
    {access : Access} {value : List UInt32} {index : UInt32} {rest : List UInt32} {m : M}
    (h : Indexes backend ctx i e p base use access value index 0 rest m) :
    EndsWithin (Runner.cycle p) (checkedSlots I use value m) m fun fault m' =>
      Raised .nullReference (checkedSlots I use value m) (snap I m) fault (snap I m')
  /-- Of the array only the length is read, and nothing outside of the stack is written. -/
  outside {ctx : EmitContext} {i : Instruction} {e : Effect} {p : Program I} {base : Nat} {use : ElementUse}
    {access : Access} {value : List UInt32} {index array length : UInt32} {rest : List UInt32} {m : M}
    (h : Indexes backend ctx i e p base use access value index array rest m) (harray : array ≠ 0)
    (hlength : HasLength I ctx (snap I m).memory array length) (hindex : ¬InRange index length) :
    EndsWithin (Runner.cycle p) (lengthBytes ctx array ∪ checkedSlots I use value m) m fun fault m' =>
      Raised .indexOutOfRange (checkedSlots I use value m) (snap I m) fault (snap I m')
  /-- What follows the checks is for the element, wherever it lies. -/
  reached {ctx : EmitContext} {i : Instruction} {e : Effect} {p : Program I} {base : Nat} {use : ElementUse}
    {access : Access} {value : List UInt32} {index array length : UInt32} {rest : List UInt32} {m : M}
    (h : Indexes backend ctx i e p base use access value index array rest m) (harray : array ≠ 0)
    (hlength : HasLength I ctx (snap I m).memory array length) (hindex : InRange index length) :
    ∃ front code, (backend.emit ctx i e).code = front ++ code ∧
      ReachesWithin (Runner.cycle p) (lengthBytes ctx array ∪ checkedSlots I use value m) m fun m' =>
        Runner.At I m' (base + front.length) ∧ Scratched scratch ((snap I m).dropped I use.popped) (snap I m') ∧
          aims p use access (elementAddress ctx array index access.storage) code (snap I m')
  /-- The address of the element is pushed. -/
  address {ctx : EmitContext} {i : Instruction} {e : Effect} {p : Program I} {base : Nat} {access : Access}
    {index array length : UInt32} {rest : List UInt32} {m : M}
    (h : Indexes backend ctx i e p base .address access [] index array rest m) (harray : array ≠ 0)
    (hlength : HasLength I ctx (snap I m).memory array length) (hindex : InRange index length) :
    ReachesWithin (Runner.cycle p) (lengthBytes ctx array ∪ checkedSlots I .address [] m) m fun m' =>
      Past backend ctx i e base m' ∧ Pushed (Runner.sp I) scratch
        [elementAddress ctx array index access.storage] ((snap I m).dropped I 2) (snap I m')
  /-- The element is loaded. -/
  load {ctx : EmitContext} {i : Instruction} {e : Effect} {p : Program I} {base : Nat} {kind : ValueKind}
    {access : Access} {index array length : UInt32} {rest : List UInt32} {m : M}
    (h : Indexes backend ctx i e p base (.load kind) access [] index array rest m) (harray : array ≠ 0)
    (hlength : HasLength I ctx (snap I m).memory array length) (hindex : InRange index length)
    (hloadable : Loadable I (elementPlace ctx array index access) (snap I m)) :
    LoadsAt backend scratch sign ctx i e p base (elementPlace ctx array index access) m
  /-- The element is stored. -/
  store {ctx : EmitContext} {i : Instruction} {e : Effect} {p : Program I} {base : Nat} {kind : ValueKind}
    {access : Access} {value : List UInt32} {index array length : UInt32} {rest : List UInt32} {m : M}
    (h : Indexes backend ctx i e p base (.store kind) access value index array rest m) (harray : array ≠ 0)
    (hlength : HasLength I ctx (snap I m).memory array length) (hindex : InRange index length)
    (hstorable : Storable I (elementPlace ctx array index access) (value ++ ([index, array] ++ rest)) (snap I m)) :
    StoresAt backend scratch ctx i e p base (elementPlace ctx array index access)
      (value ++ ([index, array] ++ rest)) m

end Targets

end Stencil
