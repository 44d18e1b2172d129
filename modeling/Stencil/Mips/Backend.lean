import Stencil.Mips.Allocation
import Stencil.Mips.Convention
import Stencil.Mips.Decision
import Stencil.Mips.Storage

/-!
# The MIPS32 target

Values live on the machine's stack between templates, as on every target. Conditions are set into a
register and tested against zero, and every branch and jump has `nop` in its delay slot.
-/

namespace Stencil.Mips

/-- The template of each operation. -/
def emit (ctx : EmitContext) (i : Instruction) (effect : Effect) : Template Instr :=
  match i.op.operation with
  | .nop => { code := [.nop] }
  | .methodStart => { code := prologue ctx }
  | .methodEnd => { code := epilogue ctx }
  | .ret => .ofExcept (ret ctx i effect)
  | .loadArg => .ofExcept (loadSlot ctx i true)
  | .loadArgAddress => .ofExcept (slotAddress ctx i true)
  | .storeArg => .ofExcept (storeSlot ctx i true)
  | .loadLocal => .ofExcept (loadSlot ctx i false)
  | .loadLocalAddress => .ofExcept (slotAddress ctx i false)
  | .storeLocal => .ofExcept (storeSlot ctx i false)
  | .loadConst => .ofExcept (loadConst i)
  | .loadNull => { code := Instr.pushImm 0 }
  | .loadString => .ofExcept (loadSymbol ((ctx.tables.resolveString i).map StringLiteral.symbol))
  | .loadToken => .ofExcept (loadSymbol (ctx.tokenSymbol i))
  | .loadFunction =>
    .ofExcept (loadSymbol ((ctx.tables.resolveMethod i).map MethodDescriptor.symbol))
  | .sizeOf => .ofExcept (sizeOf ctx i)
  | .dup => .ofExcept (dup i effect)
  | .pop => { code := pop effect }
  | .binary op => .ofExcept (binary i effect op)
  | .unary op => { code := unary effect op }
  | .shift op => { code := shift ctx i effect op }
  | .compare op => { code := compare ctx i effect op }
  | .convert target => .ofExcept (convert ctx i effect target)
  | .branch condition => .ofExcept (branch ctx i effect condition)
  | .switch => switch ctx i
  | .leave => .ofExcept (leave ctx i effect)
  | .loadField => .ofExcept (loadField ctx i)
  | .loadFieldAddress => .ofExcept (loadFieldAddress ctx i)
  | .storeField => .ofExcept (storeField ctx i effect)
  | .loadStatic => .ofExcept (loadStatic ctx i)
  | .loadStaticAddress => .ofExcept (loadStaticAddress ctx i)
  | .storeStatic => .ofExcept (storeStatic ctx i)
  | .loadIndirect kind => .ofExcept (loadIndirect ctx i kind)
  | .storeIndirect kind => .ofExcept (storeIndirect ctx i effect kind)
  | .loadLength => { code := loadLength ctx i }
  | .loadElement kind => .ofExcept (loadElement ctx i kind)
  | .loadElementAddress => .ofExcept (loadElementAddress ctx i)
  | .storeElement kind => .ofExcept (storeElement ctx i effect kind)
  | .call => .ofExcept (call ctx i effect)
  | .callIndirect => { code := callIndirect effect }
  | .callVirtual => .ofExcept (callVirtual ctx i effect)
  | .newObject => .ofExcept (newObject ctx i)
  | .newArray => .ofExcept (newArray ctx i)
  | .isInstance => .ofExcept (typeTest ctx i false)
  | .castClass => .ofExcept (typeTest ctx i true)
  | .throw => { code := throwObject }
  | .initObject => .ofExcept (initObject ctx i)

/-- Nothing traps a null pointer and misaligned words fault, so raw pointers are tested and read
byte by byte. -/
def backend : Backend Instr where
  arch := .mips32
  defaultPolicy := { guardIndirect := true, assumeAligned := false }
  emit := emit

end Stencil.Mips
