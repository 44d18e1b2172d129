import Stencil.Proofs.Arithmetic.Targets
import Stencil.Proofs.Running.Invocation
import Stencil.Proofs.X86.Convention
import Stencil.Proofs.X86.Transfers

/-!
# Invocations on x86

An invocation clears the registers, pushes the arguments, makes room for the result, and pushes the address
that ends the run. From there the method is followed as after any call.
-/

namespace Stencil.X86

open AddressMap Invocation Stateful

/-- Methods of the fragment run. -/
theorem runsMethods : RunsMethods backend where
  integers := computesIntegers
  moves := movesValues
  labels := backend_labelsTemplates
  returns := by
    intro p ctx i i' e e' mach exit stop k value own slot rest saved hfits hop hop' _ hret hend hbytes
      hframe hslot h
    have hcode : (backend.emit ctx i e).code = ret ctx e := by
      show (emit ctx i e).code = _
      rw [emit, hop]
    have hcode' : (backend.emit ctx i' e').code = epilogue ctx := by
      show (emit ctx i' e').code = _
      rw [emit, hop']
    rw [hcode] at hret
    rw [hcode'] at hend
    exact leaves hfits hret hend hbytes hframe hslot h

namespace Machine

variable {p : Program Instr}

theorem pc_of_cycle (hfits : p.code.size ≤ codeLimit) {m t : Machine} (h : cycle p m = .ok () t) :
    m.pc ≠ returnSentinel := by
  intro hpc
  unfold cycle at h
  rw [bind_of_ok (estate_get_apply m), hpc, Program.indexOf_returnSentinel hfits] at h
  cases h

theorem run_of_cycles (hfits : p.code.size ≤ codeLimit) {n fuel : Nat} {m m' : Machine}
    (h : Cycles (cycle p) n m m') (hpc : m'.pc = returnSentinel) (hfuel : n ≤ fuel) :
    run p fuel m = .ok () m' := by
  induction h generalizing fuel with
  | zero => cases fuel <;> simp only [run, if_pos hpc]
  | succ hcycle _ ih =>
    obtain ⟨fuel, rfl⟩ : ∃ k, fuel = k + 1 := ⟨fuel - 1, by omega⟩
    simp only [run, if_neg (pc_of_cycle hfits hcycle), hcycle]
    exact ih hpc (by omega)

def cleared (m : Machine) : Machine :=
  ({ m with trace := #[], regs := Vector.replicate 8 0, flags := {} } : Machine).setReg .esp stackTop

/-- What an invocation does once the method has returned. -/
def collect (args : List StackValue) (returnBytes : UInt32) : Run (List UInt32) := do
  let sp ← get .esp
  let expected := returnSp args returnBytes
  if sp ≠ expected then
    throw (.stackImbalance expected sp)
  (List.range (returnBytes / 4).toNat).mapM fun k =>
    onStore (Store.readWord (sp + 4 * UInt32.ofNat k))

def prepare (p : Program Instr) (entry : Symbol) (args : List StackValue) (returnBytes : UInt32) :
    Run Unit := do
  modify fun m => { m with trace := #[], regs := Vector.replicate 8 0, flags := {} }
  put .esp stackTop
  (argumentWords args).forM push
  put .esp ((← get .esp) - returnBytes)
  push returnSentinel
  goto (← lift (p.resolve entry))

theorem invoke_eq (p : Program Instr) (entry : Symbol) (args : List StackValue) (returnBytes : UInt32) :
    invoke p entry args returnBytes =
      prepare p entry args returnBytes >>= fun _ => run p p.stepLimit >>= fun _ => collect args returnBytes := by
  simp only [invoke, prepare, bind_assoc]
  rfl

/-- The invocation goes through this machine while the method runs. -/
def PassesThrough (p : Program Instr) (entry : Symbol) (args : List StackValue) (returnBytes : UInt32)
    (m m' : Machine) : Prop :=
  ∃ t n, prepare p entry args returnBytes m = .ok () t ∧ n < p.stepLimit ∧ Cycles (cycle p) n t m'

theorem invoke_of_prepare {entry : Symbol} {args : List StackValue} {returnBytes : UInt32} {m t : Machine}
    (h : prepare p entry args returnBytes m = .ok () t) :
    invoke p entry args returnBytes m = (run p p.stepLimit >>= fun _ => collect args returnBytes) t := by
  rw [invoke_eq, bind_of_ok h]

end Machine

variable {m : Machine} {v : View Registers} {words : List UInt32} {fp : UInt32}

theorem sees_cleared (m : Machine) :
    Sees m.cleared ⟨[], stackCapacity, 0, ⟨fun _ => 0, {}⟩⟩ where
  reg r := by cases r <;> rfl
  flags := rfl
  shows := ⟨Nat.zero_add _, trivial⟩

theorem Sees.pushAll (h : Sees m v) (hv : v.At words fp) {pushed : List UInt32}
    (hroom : pushed.length + words.length ≤ stackCapacity) :
    ∃ t v', pushed.forM Machine.push m = .ok ⟨⟩ t ∧ Sees t v' ∧ v'.At (pushed.reverse ++ words) fp := by
  induction pushed generalizing m v words with
  | nil => exact ⟨m, v, rfl, h, hv⟩
  | cons w pushed ih =>
    rw [List.length_cons] at hroom
    obtain ⟨v₁, hpush, hv₁, -⟩ := hv.push? (by omega) w
    obtain ⟨m₁, hm₁, hsees₁, -⟩ := h.push hpush
    obtain ⟨t, v', hrest, hsees, hv'⟩ := ih hsees₁ hv₁ (by rw [List.length_cons]; omega)
    refine ⟨t, v', forM_cons_eq_ok.mpr ⟨m₁, hm₁, hrest⟩, hsees, ?_⟩
    rwa [List.reverse_cons, List.append_assoc, List.singleton_append]

theorem Sees.reserve (h : Sees m v) (hv : v.At words fp) {count : Nat}
    (hroom : count + words.length ≤ stackCapacity) :
    ∃ slot v', slot.length = count ∧ v'.At (slot ++ words) fp ∧
      Sees (m.setReg .esp (m.reg .esp - UInt32.ofNat (4 * count))) v' := by
  have hholds := h.shows.holds
  rw [hv.words_eq] at hholds
  obtain ⟨slot, hslot, hholds⟩ := hholds.extend count hroom
  have hfree : (slot ++ words).length + (stackCapacity - (count + words.length)) = stackCapacity := by
    rw [List.length_append]
    omega
  have hpointer : m.reg .esp - UInt32.ofNat (4 * count) = stackPointer (slot ++ words) := by
    rw [h.reg, get, hv.words_eq, ← hslot, stackPointer_sub_bytes]
  rw [hpointer]
  exact ⟨slot, { v with words := slot ++ words, free := stackCapacity - (count + words.length) }, hslot,
    ⟨rfl, hv.fp_eq, hfree⟩, h.moveStack hfree hholds⟩

theorem prepares (start : Machine) (args : List StackValue) {count : Nat} (entry : Nat)
    (hroom : count + (argumentWords args).length < stackCapacity) :
    ∃ t slot, slot.length = count ∧
      Poised Instr t entry (returnSentinel :: (slot ++ (argumentWords args).reverse)) 0 ∧
      ∀ (p : Program Instr) (symbol : Symbol), p.resolve symbol = .ok (codeAddress entry) →
        Machine.prepare p symbol args (UInt32.ofNat (4 * count)) start = .ok () t := by
  obtain ⟨t₁, v₁, hpushed, hsees₁, hv₁⟩ := (sees_cleared start).pushAll ⟨rfl, rfl, Nat.zero_add _⟩
    (show (argumentWords args).length + 0 ≤ stackCapacity by omega)
  rw [List.append_nil] at hv₁
  obtain ⟨slot, v₂, hslot, hv₂, hsees₂⟩ := hsees₁.reserve hv₁
    (show count + (argumentWords args).reverse.length ≤ stackCapacity by rw [List.length_reverse]; omega)
  obtain ⟨v₃, hpush, hv₃, -⟩ := hv₂.push?
    (by rw [List.length_append, hslot, List.length_reverse]; omega) returnSentinel
  obtain ⟨t₃, hpushed', hsees₃, -⟩ := hsees₂.push hpush
  refine ⟨{ t₃ with pc := codeAddress entry }, slot, hslot,
    ⟨v₃, ⟨rfl, hsees₃.reg, hsees₃.flags, hsees₃.shows⟩, hv₃.words_eq, hv₃.fp_eq⟩, ?_⟩
  intro p symbol hsymbol
  calc Machine.prepare p symbol args (UInt32.ofNat (4 * count)) start
    _ = ((argumentWords args).forM Machine.push >>= fun _ => do
          Machine.put .esp ((← Machine.get .esp) - UInt32.ofNat (4 * count))
          Machine.push returnSentinel
          Machine.goto (← Machine.lift (p.resolve symbol))) start.cleared := by
      rw [Machine.prepare, bind_of_ok (modify_apply _ start), bind_of_ok (Machine.put_apply ..)]
      rfl
    _ = _ := by
      rw [bind_of_ok hpushed, bind_of_ok (Machine.get_apply ..), bind_of_ok (Machine.put_apply ..),
        bind_of_ok hpushed', hsymbol]
      rfl

theorem Machine.run_lost {p : Program Instr} {fuel : Nat} {m t : Machine} {fault : Fault}
    (hpc : m.pc ≠ returnSentinel) (hlost : p.indexOf m.pc = .error fault) : Machine.run p fuel m ≠ .ok () t := by
  intro h
  cases fuel with
  | zero =>
    simp only [Machine.run, if_neg hpc] at h
    cases h
  | succ fuel =>
    have hcycle : Machine.cycle p m = .error fault m := by
      unfold Machine.cycle
      rw [bind_of_ok (estate_get_apply m), hlost]
      rfl
    simp only [Machine.run, if_neg hpc, hcycle] at h
    cases h

/-- An invocation of a symbol that leads to no instruction does not return. -/
theorem invoke_lost {p : Program Instr} {symbol : Symbol} {entry : Nat} {fault : Fault}
    (hsymbol : p.resolve symbol = .ok (codeAddress entry)) (hentry : codeAddress entry ≠ returnSentinel)
    (hlost : p.indexOf (codeAddress entry) = .error fault) (start t : Machine) (value : List UInt32) :
    Machine.invoke p symbol [] 0 start ≠ .ok value t := by
  obtain ⟨t₀, slot, -, ⟨v, hstands, -⟩, hprepare⟩ := @prepares start [] 0 entry (by decide)
  intro h
  have hran : (Machine.run p p.stepLimit >>= fun _ => Machine.collect [] 0) t₀ = .ok value t :=
    (Machine.invoke_of_prepare (hprepare p symbol hsymbol)).symm.trans h
  obtain ⟨_, u, hrun, -⟩ := bind_eq_ok.mp hran
  rw [← hstands.pc] at hentry hlost
  exact Machine.run_lost hentry hlost hrun

/-- The words of a value that is returned are read from its slot. -/
theorem collect_of_poised {args : List StackValue} {value rest : List UInt32} {k : Nat}
    (h : Poised Instr m k (value ++ rest) fp) (hrest : rest.length = (argumentWords args).length)
    (hvalue : value.length ≤ stackCapacity) :
    Machine.collect args (UInt32.ofNat (4 * value.length)) m = .ok value m := by
  have hholds : m.store.memory.Holds (value ++ rest) := h.holds
  obtain ⟨v, hstands, hwords, -⟩ := h
  have hsp : m.reg .esp = stackPointer (value ++ rest) := by
    rw [hstands.sees.reg, ← hwords]
    rfl
  unfold Machine.collect
  rw [bind_of_ok (Machine.get_apply ..), hsp, returnSp_eq value hrest, toNat_words_of_bytes hvalue]
  simp only [ne_eq, not_true_eq_false, if_false]
  refine mapM_range_of_ok fun k hk => ?_
  have hread : Store.readWord (stackPointer (value ++ rest) + 4 * UInt32.ofNat k) m.store =
      .ok value[k] m.store := by
    rw [Store.readWord, Store.read, hholds.read_value hk]
  exact Machine.onStore_of_ok hread

section Enters

variable {p : Program Instr} {entry count : Nat} {symbol : Symbol} {args : List StackValue}

/-- A prepared machine gets behind the start of the method. -/
theorem prepare_enters (ctx : EmitContext) (start : Machine) (hfits : p.code.size ≤ codeLimit)
    (hsymbol : p.resolve symbol = .ok (codeAddress entry)) (hplaced : Placed p entry (prologue ctx))
    (hroom : ctx.frame.localBytes / 4 + (count + (argumentWords args).length + 2) ≤ stackCapacity) :
    ∃ t k u slot, slot.length = count ∧ Cycles (Machine.cycle p) k t u ∧
      Poised Instr u (entry + (prologue ctx).length)
        (List.replicate (ctx.frame.localBytes / 4) 0 ++ invokedWords 0 slot args)
        (stackPointer (invokedWords 0 slot args)) ∧
      ∀ limit, Machine.prepare { p with stepLimit := limit } symbol args (UInt32.ofNat (4 * count)) start =
        .ok () t := by
  obtain ⟨t, slot, hslot, hpoised, hprepare⟩ := prepares start args entry
    (show count + (argumentWords args).length < stackCapacity by omega)
  have hlength : (slot ++ (argumentWords args).reverse).length = count + (argumentWords args).length := by
    rw [List.length_append, hslot, List.length_reverse]
  obtain ⟨k, u, hentered, hu⟩ :=
    hpoised.turns (turns_prologue (by rw [List.length_cons, hlength]; omega)) hfits hplaced
  exact ⟨t, k, u, slot, hslot, hentered, hu, fun limit => hprepare { p with stepLimit := limit } symbol hsymbol⟩

/-- An invocation ends with the value of a method that returns. -/
theorem invokes : Invokes backend Machine.ops where
  returns := by
    intro p ctx e entry count symbol args value start hfits hsymbol hplaced hroom hreach
    have hcode : (backend.emit ctx (.pseudo 0 .methodStart) e).code = prologue ctx := rfl
    rw [hcode] at hplaced hreach
    obtain ⟨t, k, u, slot, hslot, hentered, hu, hprepare⟩ := prepare_enters ctx start hfits hsymbol hplaced hroom
    obtain ⟨n, t', hcycles, rest, fp, rfl, hrest, hat⟩ := hreach hslot hu
    have hpc : t'.pc = returnSentinel := by
      obtain ⟨v, hstands, -⟩ := hat
      exact hstands.pc.trans codeAddress_sentinelIndex
    refine ⟨k + n, fun limit hlimit => ⟨t', ?_⟩⟩
    have hrun : Machine.run { p with stepLimit := limit } limit t = .ok () t' :=
      @Machine.run_of_cycles { p with stepLimit := limit } hfits (k + n) limit t t'
        (hentered.trans hcycles) hpc hlimit
    refine (Machine.invoke_of_prepare (hprepare limit)).trans ?_
    rw [bind_of_ok hrun]
    exact collect_of_poised hat hrest (by omega)

end Enters

end Stencil.X86
