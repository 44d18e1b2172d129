import Stencil.Proofs.Dispatch.Tables
import Stencil.X86.Instr

/-!
# The layout of linked data

Descriptors and method tables, static fields and strings are taken from memory one after another. So they
lie apart (`Taken.laid`), and what is written for one of them outlasts what is written later. At the end
every descriptor and every method table holds what its type says, as long as no method without a body has
the symbol of an intrinsic.
-/

namespace Stencil

open AddressMap Link Stateful

/-! ## Pieces of data -/

/-- A piece of data that linking places in memory. -/
inductive DataPiece where
  | descriptor (type : TypeDescriptor)
  | methodTable (type : TypeDescriptor)
  | staticField (field : FieldDescriptor)
  | string (literal : StringLiteral)

def Table.dataPieces (t : Table) : List DataPiece :=
  t.types.flatMap (fun type => [.descriptor type, .methodTable type]) ++
    (t.fields.filter FieldDescriptor.isStatic).map .staticField ++ t.strings.map .string

namespace DataPiece

def bytes (tables : Table) (pointerSize : Nat) : DataPiece → Nat
  | .descriptor _ => 16
  | .methodTable type => 8 * (type.methodTable.length + 1)
  | .staticField field => staticSize tables pointerSize field
  | .string _ => 8

/-- Where a linked program finds a piece. The way to a method table is through the descriptor. -/
def address? {I : Type} (p : Program I) (memory : Memory) : DataPiece → Option UInt32
  | .descriptor type => p.types[type.id]?
  | .methodTable type => p.types[type.id]?.bind fun address => (memory.read (address + 8) 4).toOption
  | .staticField field => p.symbols[field.symbol]?
  | .string literal => p.symbols[literal.symbol]?

end DataPiece

/-- Pieces with their addresses, aligned and one after another between `lo` and `hi`. -/
structure Laid (bytes : DataPiece → Nat) (lo hi : Nat) (pieces : List (DataPiece × UInt32)) : Prop where
  within : ∀ pair ∈ pieces, pair.2.toNat % 8 = 0 ∧ lo ≤ pair.2.toNat ∧ pair.2.toNat + bytes pair.1 ≤ hi
  apart : pieces.Pairwise fun pair next => pair.2.toNat + bytes pair.1 ≤ next.2.toNat

/-- Pieces that were taken one after another, from `next` up to `stop`. -/
inductive Taken (bytes : DataPiece → Nat) : UInt32 → List (DataPiece × UInt32) → UInt32 → Prop
  | nil {next : UInt32} : Taken bytes next [] next
  | cons {next size address mid stop : UInt32} {piece : DataPiece} {pieces : List (DataPiece × UInt32)}
      (htake : takeData next size = .ok (address, mid)) (hsize : size.toNat = bytes piece)
      (hfits : bytes piece + 0x100008 ≤ 2 ^ 32) (hrest : Taken bytes mid pieces stop) :
      Taken bytes next ((piece, address) :: pieces) stop

namespace Taken

variable {bytes : DataPiece → Nat} {next mid stop : UInt32} {pieces pieces' : List (DataPiece × UInt32)}

theorem append (h : Taken bytes next pieces mid) (h' : Taken bytes mid pieces' stop) :
    Taken bytes next (pieces ++ pieces') stop := by
  induction h with
  | nil => exact h'
  | cons htake hsize hfits _ ih => exact .cons htake hsize hfits (ih h')

/-- What is taken in this way is laid out between the two ends. -/
theorem laid (h : Taken bytes next pieces stop) (hnext : next.toNat ≤ 0x100000) (haligned : next.toNat % 8 = 0) :
    stop.toNat ≤ 0x100000 ∧ next.toNat ≤ stop.toNat ∧ Laid bytes next.toNat stop.toNat pieces := by
  induction h with
  | nil => exact ⟨hnext, Nat.le_refl _, by simp, .nil⟩
  | @cons next size address mid stop piece pieces htake hsize hfits _ ih =>
    obtain ⟨-, hsum, -⟩ := takeData_ok htake
    obtain ⟨rfl, hgrows, hmid⟩ := takeData_le htake hnext (by omega)
    rw [hsize] at hgrows
    have hmidAligned : mid.toNat % 8 = 0 := by
      have hround := roundUp_mod (max size 4)
      rw [hsum, UInt32.toNat_add]
      omega
    obtain ⟨hstop, hle, hlaid⟩ := ih hmid hmidAligned
    refine ⟨hstop, by omega, fun pair hpair => ?_, List.pairwise_cons.mpr ⟨fun pair hpair => ?_, hlaid.apart⟩⟩
    · rcases List.mem_cons.mp hpair with rfl | hmem
      · exact ⟨haligned, Nat.le_refl _, by dsimp only; omega⟩
      · obtain ⟨hpairAligned, hlow, hhigh⟩ := hlaid.within pair hmem
        exact ⟨hpairAligned, by omega, hhigh⟩
    · obtain ⟨-, hlow, -⟩ := hlaid.within pair hpair
      dsimp only
      omega

end Taken

/-! ## What linking takes -/

section Placing

variable {tables : Table} {pointerSize : Nat} {next stop : UInt32}

def typePieces (places : List TypePlace) : List (DataPiece × UInt32) :=
  places.flatMap fun place => [(.descriptor place.type, place.address), (.methodTable place.type, place.table)]

def staticPieces (fields : List FieldDescriptor) (statics : List (Symbol × UInt32)) :
    List (DataPiece × UInt32) :=
  List.zipWith (fun field binding => (.staticField field, binding.2)) fields statics

def stringPieces (strings : List (StringLiteral × UInt32)) : List (DataPiece × UInt32) :=
  strings.map fun pair => (.string pair.1, pair.2)

theorem taken_of_placeTypes {symbols : Std.HashMap Symbol UInt32} {map : Std.HashMap TypeId TypePlace}
    {types : List TypeDescriptor} {places : List TypePlace}
    (h : placeTypes 16 next types = .ok (places, stop)) (hnext : next.toNat ≤ 0x100000)
    (hmapped : ∀ pair ∈ places.flatMap (typeWords tables {} symbols map), Memory.mapped pair.1 4 = true) :
    Taken (DataPiece.bytes tables pointerSize) next (typePieces places) stop := by
  induction types generalizing next places with
  | nil =>
    obtain ⟨rfl, rfl⟩ := Prod.mk.inj (Except.ok.inj h)
    exact .nil
  | cons type types ih =>
    obtain ⟨address, mid, table, mid', rest, haddress, htable, hrest, rfl⟩ := placeTypes_cons_ok h
    rw [List.flatMap_cons] at hmapped
    obtain ⟨rfl, hmid, -⟩ := takeData_ok haddress
    obtain ⟨rfl, -, hmidLe⟩ := takeData_ok htable
    obtain ⟨hend, -⟩ := spread_typeWords_one hnext hmid fun pair hpair =>
      hmapped pair (List.mem_append_left _ hpair)
    dsimp only at hend
    have hsize := toNat_tableSize (n := type.methodTable.length) (by omega)
    have hshort : 8 * (type.methodTable.length + 1) + 0x100008 ≤ 2 ^ 32 := by omega
    have hdescriptor : 16 + 0x100008 ≤ 2 ^ 32 := by omega
    exact .cons haddress rfl hdescriptor (.cons htable hsize hshort
      (ih hrest hmidLe fun pair hpair => hmapped pair (List.mem_append_right _ hpair)))

theorem taken_of_placeStatics {fields : List FieldDescriptor} {statics : List (Symbol × UInt32)}
    (h : placeStatics tables pointerSize next fields = .ok (statics, stop))
    (hfit : ∀ field ∈ fields, staticSize tables pointerSize field + 0x100008 ≤ 2 ^ 32) :
    Taken (DataPiece.bytes tables pointerSize) next (staticPieces fields statics) stop := by
  induction fields generalizing next statics with
  | nil =>
    obtain ⟨rfl, rfl⟩ := Prod.mk.inj (Except.ok.inj h)
    exact .nil
  | cons field fields ih =>
    unfold placeStatics at h
    obtain ⟨⟨address, mid⟩, haddress, h⟩ := answer_bind.mp h
    obtain ⟨⟨rest, last⟩, hrest, h⟩ := answer_bind.mp h
    obtain ⟨rfl, rfl⟩ := Prod.mk.inj (Except.ok.inj h)
    rw [List.forall_mem_cons] at hfit
    have hword : (UInt32.ofNat (staticSize tables pointerSize field)).toNat =
        staticSize tables pointerSize field := UInt32.toNat_ofNat_of_lt' (by simp [UInt32.size]; omega)
    exact .cons haddress hword hfit.1 (ih hrest hfit.2)

theorem taken_of_placeStrings {literals : List StringLiteral} {strings : List (StringLiteral × UInt32)}
    (h : placeStrings next literals = .ok (strings, stop)) :
    Taken (DataPiece.bytes tables pointerSize) next (stringPieces strings) stop := by
  induction literals generalizing next strings with
  | nil =>
    obtain ⟨rfl, rfl⟩ := Prod.mk.inj (Except.ok.inj h)
    exact .nil
  | cons literal literals ih =>
    unfold placeStrings at h
    obtain ⟨⟨address, mid⟩, haddress, h⟩ := answer_bind.mp h
    obtain ⟨⟨rest, last⟩, hrest, h⟩ := answer_bind.mp h
    obtain ⟨rfl, rfl⟩ := Prod.mk.inj (Except.ok.inj h)
    have hfits : 8 + 0x100008 ≤ 2 ^ 32 := by omega
    exact .cons haddress rfl hfits (ih hrest)

theorem map_fst_typePieces (places : List TypePlace) :
    (typePieces places).map Prod.fst =
      (places.map TypePlace.type).flatMap fun type => [.descriptor type, .methodTable type] := by
  rw [typePieces, List.map_flatMap, List.flatMap_map]
  rfl

theorem map_fst_staticPieces {fields : List FieldDescriptor} {statics : List (Symbol × UInt32)}
    (h : statics.map Prod.fst = fields.map FieldDescriptor.symbol) :
    (staticPieces fields statics).map Prod.fst = fields.map .staticField := by
  induction fields generalizing statics with
  | nil => rfl
  | cons field fields ih =>
    cases statics with
    | nil => cases h
    | cons binding statics => exact congrArg _ (ih (List.cons.inj h).2)

/-- A static field is bound to the address that it is placed at. -/
theorem mem_staticPieces {fields : List FieldDescriptor} {statics : List (Symbol × UInt32)}
    (h : statics.map Prod.fst = fields.map FieldDescriptor.symbol) {pair : DataPiece × UInt32}
    (hpair : pair ∈ staticPieces fields statics) :
    ∃ field ∈ fields, pair.1 = .staticField field ∧ (field.symbol, pair.2) ∈ statics := by
  induction fields generalizing statics with
  | nil => cases hpair
  | cons field fields ih =>
    cases statics with
    | nil => cases h
    | cons binding statics =>
      obtain ⟨hsymbol, hrest⟩ := List.cons.inj h
      rcases List.mem_cons.mp hpair with rfl | hmem
      · exact ⟨field, List.mem_cons_self, rfl, hsymbol ▸ List.mem_cons_self⟩
      · obtain ⟨field', hfield', heq, hbinding⟩ := ih hrest hmem
        exact ⟨field', List.mem_cons_of_mem _ hfield', heq, List.mem_cons_of_mem _ hbinding⟩

end Placing

/-! ## Words of tables -/

def flatWords (pairs : List (UInt32 × UInt32)) : List UInt32 := pairs.flatMap fun pair => [pair.1, pair.2]

theorem wordsAt_of_pairWords {memory : Memory} {a : UInt32} {pairs : List (UInt32 × UInt32)}
    (h : ∀ word ∈ pairWords a pairs, memory.read word.1 4 = .ok word.2) :
    memory.WordsAt a (flatWords pairs) := by
  induction pairs generalizing a with
  | nil => trivial
  | cons pair pairs ih =>
    obtain ⟨first, second⟩ := pair
    refine ⟨h (a, first) List.mem_cons_self, h (a + 4, second) (List.mem_cons_of_mem _ List.mem_cons_self), ?_⟩
    rw [UInt32.add_assoc]
    exact ih fun word hword => h word (List.mem_cons_of_mem _ (List.mem_cons_of_mem _ hword))

/-! ## Linked data -/

section Linked

variable {I : Type} {methods : List (CompiledMethod I)} {tables : Table} {options : Options}
  {config : RunConfig} {p : Program I} {store : Store}

def dataWord (p : Program I) (memory : Memory) (piece? : Option DataPiece) : UInt32 :=
  (piece?.bind fun piece => piece.address? p memory).getD 0

/-- The words of a method table: a pair for each slot, then zero and the table of the base. -/
def tableWords (tables : Table) (methods : List (CompiledMethod I)) (p : Program I) (memory : Memory)
    (type : TypeDescriptor) : List UInt32 :=
  flatWords (type.methodTable.map (tablePair tables methods) ++
    [(0, dataWord p memory ((tables.base? type).map .methodTable))])

/-- The words of a descriptor: size, number, method table and the descriptor of the base. -/
def descriptorWords (tables : Table) (p : Program I) (memory : Memory) (type : TypeDescriptor) :
    List UInt32 :=
  [.ofNat type.heapSize, .ofNat type.id, dataWord p memory (some (.methodTable type)),
    dataWord p memory ((tables.base? type).map .descriptor)]

/-- How linking leaves the data of a table. -/
structure LaidOut (tables : Table) (methods : List (CompiledMethod I)) (pointerSize : Nat)
    (p : Program I) (memory : Memory) : Prop where
  placed : ∀ piece ∈ tables.dataPieces, ∃ a, piece.address? p memory = some a ∧ a.toNat % 8 = 0 ∧
    0x1000 ≤ a.toNat ∧ a.toNat + piece.bytes tables pointerSize ≤ 0x100000
  apart : tables.dataPieces.Pairwise fun piece next => ∀ a b, piece.address? p memory = some a →
    next.address? p memory = some b → a.toNat + piece.bytes tables pointerSize ≤ b.toNat
  descriptors : ∀ type ∈ tables.types,
    memory.WordsAt (dataWord p memory (some (.descriptor type))) (descriptorWords tables p memory type)
  methodTables : ∀ type ∈ tables.types,
    memory.WordsAt (dataWord p memory (some (.methodTable type))) (tableWords tables methods p memory type)

/-- Addresses of all pieces under which they are laid out. -/
theorem laidOut_of_laid {pieces : List (DataPiece × UInt32)} {bytes : DataPiece → Nat} {memory : Memory}
    (hall : pieces.map Prod.fst = tables.dataPieces)
    (hfound : ∀ pair ∈ pieces, pair.1.address? p memory = some pair.2) {stop : Nat} (hstop : stop ≤ 0x100000)
    (hlaid : Laid bytes 0x1000 stop pieces) :
    (∀ piece ∈ tables.dataPieces, ∃ a, piece.address? p memory = some a ∧ a.toNat % 8 = 0 ∧
      0x1000 ≤ a.toNat ∧ a.toNat + bytes piece ≤ 0x100000) ∧
    tables.dataPieces.Pairwise fun piece next => ∀ a b, piece.address? p memory = some a →
      next.address? p memory = some b → a.toNat + bytes piece ≤ b.toNat := by
  rw [← hall]
  refine ⟨fun piece hpiece => ?_, List.pairwise_map.mpr (hlaid.apart.imp_of_mem ?_)⟩
  · obtain ⟨pair, hpair, rfl⟩ := List.mem_map.mp hpiece
    obtain ⟨haligned, hlow, hhigh⟩ := hlaid.within pair hpair
    exact ⟨pair.2, hfound pair hpair, haligned, hlow, by omega⟩
  · intro pair next hpair hnext hapart a b ha hb
    obtain rfl := Option.some.inj ((hfound pair hpair).symm.trans ha)
    obtain rfl := Option.some.inj ((hfound next hnext).symm.trans hb)
    exact hapart

/-- Linking finds every piece where it has taken it, since later symbols are other ones. -/
theorem exists_pieces [TargetInstr I] (hlink : link methods tables options config = .ok (p, store))
    (hbuilt : tables.Built) (hsymbols : tables.DistinctSymbols)
    (hfit : StaticsFit tables options.pointerSize) {places : List TypePlace} {next : UInt32}
    (hlayout : options.layout = {})
    (htypes : LinkedTypes methods tables p store.memory places next) :
    ∃ pieces stop, pieces.map Prod.fst = tables.dataPieces ∧
      (∀ pair ∈ pieces, pair.1.address? p store.memory = some pair.2) ∧
      Taken (DataPiece.bytes tables options.pointerSize) dataBase pieces stop := by
  obtain ⟨places', next', statics, next'', strings, stop, hplaces, hstatics, hstrings, hbound⟩ :=
    (link_ok hlink).symbols
  rw [hlayout] at hplaces
  obtain ⟨rfl, rfl⟩ := Prod.mk.inj (Except.ok.inj (hplaces.symm.trans htypes.placed))
  have hmapped : ∀ pair ∈ places'.flatMap (typeWords tables {} (codeSymbols methods places')
      (placeMap places')), Memory.mapped pair.1 4 = true :=
    fun pair hpair => Memory.mapped_of_read (htypes.words pair hpair)
  have hfields := map_fst_placeStatics hstatics
  have hliterals := map_fst_placeStrings hstrings
  have hnodup := hsymbols.nodup
  rw [Table.symbols, ← hfields, ← hliterals, List.append_assoc, List.map_map] at hnodup
  have hnodup' : ((statics ++ strings.map fun pair => (pair.1.symbol, pair.2)).map Prod.fst).Nodup := by
    rw [List.map_append, List.map_map]
    exact (List.nodup_append.mp hnodup).2.1
  refine ⟨typePieces places' ++ (staticPieces (tables.fields.filter FieldDescriptor.isStatic) statics ++
    stringPieces strings), stop, ?_, fun pair hpair => ?_, ?_⟩
  · rw [List.map_append, List.map_append, map_fst_typePieces, types_of_placeTypes hplaces,
      map_fst_staticPieces hfields, Table.dataPieces, stringPieces, List.map_map, ← hliterals, List.map_map,
      List.append_assoc]
    rfl
  · rw [List.mem_append, List.mem_append] at hpair
    rcases hpair with htype | hstatic | hstring
    · obtain ⟨place, hplace, hpair⟩ := List.mem_flatMap.mp htype
      have hfound := htypes.address_of_place hbuilt hplace
      rcases List.mem_pair.mp hpair with rfl | rfl
      · exact hfound
      · rw [DataPiece.address?, hfound, Option.bind_some, htypes.read_table hplace]
        rfl
    · obtain ⟨field, -, hpiece, hbinding⟩ := mem_staticPieces hfields hstatic
      rw [hpiece, DataPiece.address?, hbound, List.append_assoc _ statics, bindAll_append]
      exact getElem?_bindAll_of_mem hnodup' (List.mem_append_left _ hbinding)
    · obtain ⟨literal, hliteral, rfl⟩ := List.mem_map.mp hstring
      rw [DataPiece.address?, hbound, List.append_assoc _ statics, bindAll_append]
      exact getElem?_bindAll_of_mem hnodup'
        (List.mem_append_right _ (List.mem_map.mpr ⟨literal, hliteral, rfl⟩))
  · exact (taken_of_placeTypes hplaces (by decide) hmapped).append
      ((taken_of_placeStatics hstatics fun field hfield => by
        obtain ⟨hmem, hstatic⟩ := List.mem_filter.mp hfield
        exact hfit field hmem hstatic).append (taken_of_placeStrings hstrings))

namespace LinkedTypes

variable {places : List TypePlace} {stop : UInt32} {memory : Memory}
  (h : LinkedTypes methods tables p memory places stop) (hbuilt : tables.Built)

include h hbuilt

theorem dataWord_descriptor {place : TypePlace} (hplace : place ∈ places) :
    dataWord p memory (some (.descriptor place.type)) = place.address := by
  rw [dataWord, Option.bind_some, DataPiece.address?, h.address_of_place hbuilt hplace]
  rfl

theorem dataWord_methodTable {place : TypePlace} (hplace : place ∈ places) :
    dataWord p memory (some (.methodTable place.type)) = place.table := by
  rw [dataWord, Option.bind_some, DataPiece.address?, h.address_of_place hbuilt hplace, Option.bind_some,
    h.read_table hplace]
  rfl

theorem dataWord_base (type : TypeDescriptor) :
    (((type.baseType.bind fun id => (placeMap places)[id]?).map TypePlace.address).getD 0 =
      dataWord p memory ((tables.base? type).map .descriptor)) ∧
    (((type.baseType.bind fun id => (placeMap places)[id]?).map TypePlace.table).getD 0 =
      dataWord p memory ((tables.base? type).map .methodTable)) := by
  obtain ⟨hnone, hbase⟩ | ⟨place, hplace, hsome, hbase⟩ := h.base_place hbuilt type
  · rw [hnone, hbase]
    exact ⟨rfl, rfl⟩
  · rw [hsome, hbase]
    exact ⟨(h.dataWord_descriptor hbuilt hplace).symm, (h.dataWord_methodTable hbuilt hplace).symm⟩

theorem wordsAt_descriptor {type : TypeDescriptor} (htype : type ∈ tables.types) :
    memory.WordsAt (dataWord p memory (some (.descriptor type))) (descriptorWords tables p memory type) := by
  obtain ⟨place, hplace, rfl, -⟩ := h.exists_place hbuilt htype
  have hword : ∀ word ∈ typeWords tables {} (codeSymbols methods places) (placeMap places) place,
      memory.read word.1 4 = .ok word.2 := fun word => h.word_of_place hplace
  rw [typeWords, List.forall_mem_append, (h.dataWord_base hbuilt place.type).1,
    ← h.dataWord_methodTable hbuilt hplace] at hword
  simp only [List.forall_mem_cons] at hword
  obtain ⟨⟨hsize, hid, htable, hbase, -⟩, -⟩ := hword
  rw [h.dataWord_descriptor hbuilt hplace]
  simp only [descriptorWords, Memory.WordsAt, UInt32.add_assoc]
  exact ⟨by simpa using hsize, hid, htable, hbase, trivial⟩

theorem wordsAt_methodTable (hsymbols : tables.DistinctSymbols) {type : TypeDescriptor}
    (htype : type ∈ tables.types) :
    memory.WordsAt (dataWord p memory (some (.methodTable type)))
      (tableWords tables methods p memory type) := by
  obtain ⟨place, hplace, rfl, -⟩ := h.exists_place hbuilt htype
  rw [h.dataWord_methodTable hbuilt hplace, tableWords, ← (h.dataWord_base hbuilt place.type).2,
    ← tableEntries_eq hsymbols (types_of_placeTypes h.placed)]
  exact wordsAt_of_pairWords fun word hword => h.word_of_place hplace (List.mem_append_right _ hword)

end LinkedTypes

/-- Linking lays out the descriptors and method tables of all types, the static fields and the strings
apart from each other below the heap, and in the end every descriptor and every method table holds its
words. -/
theorem linked_data_laid_out [TargetInstr I] (hlink : link methods tables options config = .ok (p, store))
    (hlayout : options.layout = {}) (hbuilt : tables.Built) (hsymbols : tables.DistinctSymbols)
    (hsizes : ∀ field ∈ tables.fields, field.isStatic = true →
      staticSize tables options.pointerSize field < 2 ^ 31) :
    LaidOut tables methods options.pointerSize p store.memory := by
  have hfit : StaticsFit tables options.pointerSize := fun field hfield hstatic => by
    have := hsizes field hfield hstatic
    omega
  obtain ⟨places, next, htypes⟩ := link_types hlink hlayout hfit
  obtain ⟨pieces, stop, hall, hfound, htaken⟩ := exists_pieces hlink hbuilt hsymbols hfit hlayout htypes
  obtain ⟨hstop, -, hlaid⟩ := htaken.laid (by decide) (by decide)
  obtain ⟨hplaced, hapart⟩ := laidOut_of_laid hall hfound hstop hlaid
  exact ⟨hplaced, hapart, fun type htype => htypes.wordsAt_descriptor hbuilt htype,
    fun type htype => htypes.wordsAt_methodTable hbuilt hsymbols htype⟩

end Linked

/-! ## Samples -/

section Samples

def drawMethod : MethodDescriptor := (MethodDescriptor.ofName ⟨1, Nat.one_pos⟩ 2 "draw").asVirtual

/-- A type that comes before its base. -/
def squareType : TypeDescriptor := { TypeDescriptor.ofClass 1 "Square" 12 with baseType := some 2 }

def figureType : TypeDescriptor :=
  { TypeDescriptor.ofClass 2 "Figure" 8 with methodTable := [(drawMethod.id, drawMethod.id)] }

/-- Types, a static field of 20 bytes and a string. -/
def galleryTable : Table :=
  ((((((Table.addType {} squareType).addType figureType).addType (.composite 3 "Matrix" 20)).addField
    (.ofStatic 1 "view" 2 3)).addMethod drawMethod).addString (.ofValue 1 "title"))

def drawCode : CompiledMethod X86.Instr where
  method := drawMethod.id
  symbol := drawMethod.symbol
  arch := .x86
  code := [.ret]
  externals := []
  spans := []
  frame := { args := [], locals := [], returnItem := none, argBytes := 0, localBytes := 0 }

theorem linked_data_laid_out_gallery :
    ∃ p store, link [drawCode] galleryTable {} {} = .ok (p, store) ∧
      LaidOut galleryTable [drawCode] 4 p store.memory := by
  cases hlink : link [drawCode] galleryTable {} {} with
  | error fault =>
    have hok : (link [drawCode] galleryTable {} {}).isOk = true := by decide +kernel
    rw [hlink] at hok
    cases hok
  | ok result =>
    refine ⟨result.1, result.2, rfl, linked_data_laid_out hlink rfl ?_
      ⟨by decide, fun intrinsic => by cases intrinsic <;> decide⟩
      (show ∀ field ∈ galleryTable.fields, field.isStatic = true → _ by decide)⟩
    exact .addString (.addMethod (.addField (.addType (.addType (.addType .empty _) _) _) _) _) _

/-- A method without a body that has the symbol of an intrinsic. -/
def haltMethod : MethodDescriptor :=
  { (MethodDescriptor.ofName ⟨1, Nat.one_pos⟩ 1 "halt").asVirtual with symbol := Intrinsic.halt.symbol }

def haltType : TypeDescriptor :=
  { TypeDescriptor.ofClass 1 "Machine" 4 with methodTable := [(haltMethod.id, haltMethod.id)] }

def haltTable : Table := (Table.addType {} haltType).addMethod haltMethod

/-- The slot of a method that is not compiled holds the address of an intrinsic of its name. -/
theorem uncompiled_slot_not_null :
    haltTable.Built ∧ haltTable.symbols.Nodup ∧
      ∃ (p : Program X86.Instr) (store : Store) (table : UInt32),
        link [] haltTable {} {} = .ok (p, store) ∧
        DataPiece.address? p store.memory (.methodTable haltType) = some table ∧
        store.memory.read table 4 = .ok 1 ∧ store.memory.read (table + 4) 4 = .ok 0xF0000020 := by
  have hbuilt : haltTable.Built := .addMethod (.addType .empty _) _
  refine ⟨hbuilt, by decide, ?_⟩
  cases hlink : link (I := X86.Instr) [] haltTable {} {} with
  | error fault =>
    have hok : (link (I := X86.Instr) [] haltTable {} {}).isOk = true := by decide +kernel
    rw [hlink] at hok
    cases hok
  | ok result =>
    obtain ⟨p, store⟩ := result
    obtain ⟨places, stop, htypes⟩ := link_types hlink rfl
      (show ∀ field ∈ haltTable.fields, field.isStatic = true → _ by decide)
    obtain ⟨place, hplace, htype, -, haddress⟩ :=
      htypes.exists_place hbuilt (show haltType ∈ haltTable.types by decide)
    -- linking binds no other symbol of that name
    have hsymbol : (codeSymbols (I := X86.Instr) [] places)[haltMethod.symbol]? = some 0xF0000020 := by
      rw [codeSymbols, bindAll_append, getElem?_bindAll_of_notMem]
      · exact getElem?_bindAll_of_mem (s := Intrinsic.halt.symbol) (a := 0xF0000020) (by decide) (by decide)
      · rw [List.map_map, show (places.map (Prod.fst ∘ fun place => (place.type.symbol, place.address))) =
          haltTable.types.map TypeDescriptor.symbol by
            rw [← types_of_placeTypes htypes.placed, List.map_map]
            rfl]
        decide
    have hentries : tableEntries haltTable (codeSymbols (I := X86.Instr) [] places)
        (((place.type.baseType.bind fun id => (placeMap places)[id]?).map TypePlace.table).getD 0)
        place.type.methodTable = [(1, 0xF0000020), (0, 0)] := by
      rw [htype]
      show [(1, ((some haltMethod).bind fun d => (codeSymbols (I := X86.Instr) [] places)[d.symbol]?).getD 0),
        (0, 0)] = _
      rw [Option.bind_some, hsymbol]
      rfl
    have hword : ∀ word ∈ pairWords place.table [(1, 0xF0000020), (0, 0)],
        store.memory.read word.1 4 = .ok word.2 := fun word hword => by
      rw [← hentries] at hword
      exact htypes.word_of_place hplace (List.mem_append_right _ hword)
    refine ⟨p, store, place.table, rfl, ?_, hword (place.table, 1) List.mem_cons_self,
      hword (place.table + 4, 0xF0000020) (List.mem_cons_of_mem _ List.mem_cons_self)⟩
    rw [DataPiece.address?, haddress, Option.bind_some, htypes.read_table hplace]
    rfl

end Samples

end Stencil
