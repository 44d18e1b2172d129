import Stencil.Error

/-!
# Options of a compilation

The byte offsets of the object format and the access policy. Both targets have words of four
bytes, so a pointer has four bytes and every offset of the format is a multiple of four.
-/

namespace Stencil

/-- Byte offsets inside objects, arrays and type descriptors. -/
structure ObjectLayout where
  /-- Of the type pointer inside every object. -/
  typePointer : Nat := 0
  /-- Of the element count inside an array. -/
  arrayLength : Nat := 4
  /-- Of the element type inside an array. -/
  arrayElementType : Nat := 8
  /-- Of element zero inside an array. -/
  arrayHeader : Nat := 12
  /-- Of the instance size inside a type descriptor. -/
  typeSize : Nat := 0
  /-- Of the type's number inside a type descriptor. -/
  typeId : Nat := 4
  /-- Of the method table pointer inside a type descriptor. -/
  typeMethodTable : Nat := 8
  /-- Of the base type pointer inside a type descriptor. -/
  typeBase : Nat := 12
  deriving DecidableEq

/-- Every offset with the name that an error reports. -/
def ObjectLayout.offsets (layout : ObjectLayout) : List (String × Nat) :=
  [("type_pointer_offset", layout.typePointer),
   ("array_length_offset", layout.arrayLength),
   ("array_element_type_offset", layout.arrayElementType),
   ("array_header_size", layout.arrayHeader),
   ("type_size_offset", layout.typeSize),
   ("type_id_offset", layout.typeId),
   ("type_method_table_offset", layout.typeMethodTable),
   ("type_base_type_offset", layout.typeBase)]

/-- The layout with the offsets replaced that `value?` gives by name. -/
def ObjectLayout.override (layout : ObjectLayout) (value? : String → Option Nat) :
    ObjectLayout where
  typePointer := (value? "type_pointer_offset").getD layout.typePointer
  arrayLength := (value? "array_length_offset").getD layout.arrayLength
  arrayElementType := (value? "array_element_type_offset").getD layout.arrayElementType
  arrayHeader := (value? "array_header_size").getD layout.arrayHeader
  typeSize := (value? "type_size_offset").getD layout.typeSize
  typeId := (value? "type_id_offset").getD layout.typeId
  typeMethodTable := (value? "type_method_table_offset").getD layout.typeMethodTable
  typeBase := (value? "type_base_type_offset").getD layout.typeBase

/-- How code treats addresses that are not known to be valid. -/
structure AccessPolicy where
  /-- Test the address of an indirect access for null. -/
  guardIndirect : Bool
  /-- Take indirect addresses as naturally aligned. -/
  assumeAligned : Bool
  deriving DecidableEq

/-- The options of one compilation. -/
structure Options where
  pointerSize : Nat := 4
  layout : ObjectLayout := {}
  /-- Overrides the policy of the target. -/
  policy : Option AccessPolicy := none
  deriving DecidableEq

/-- Refuse pointers of other widths, then the first offset that is not word aligned. -/
def Options.validate (options : Options) : Except CompileError Unit :=
  if options.pointerSize ≠ 4 then
    .error (.options (.pointerSize options.pointerSize))
  else
    match options.layout.offsets.find? (fun (_, offset) => offset % 4 ≠ 0) with
    | some (field, offset) => .error (.options (.unaligned field offset))
    | none => .ok ()

end Stencil
