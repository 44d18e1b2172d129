import Stencil.Proofs.Calls.Agreement

/-!
# Ways of calling a method

A method can be called by its symbol, through a function pointer, on a receiver, and through a delegate.
`CallsAgree` and `DelegatesAgree` say that it always runs on the same arguments in the same slots and that
its result always takes the place of what was pushed.
-/

namespace Stencil

open AddressMap

/-- The simulation accepts the instruction on some stack, with this effect. -/
def Accepts (env : SimEnv) (i : Instruction) (e : Effect) : Prop :=
  ∃ stack stack', simulate env i stack = .ok e stack'

/-- Instructions that call a method on arguments that are on the stack, with their effects: a call, an
indirect call by a signature like that of the method, and a virtual call of a method that is not virtual
on a receiver other than null. -/
inductive CallWay (env : SimEnv) (t : MethodDescriptor) (args : List (List UInt32)) :
    List (Instruction × Effect) → Prop
  | direct {call : Instruction} {e : Effect} (hop : call.op.operation = .call)
      (hmethod : env.tables.resolveMethod call = .ok t) (haccepts : Accepts env call e) :
      CallWay env t args [(call, e)]
  | indirect {load call : Instruction} {e e' : Effect} {signature : MethodDescriptor}
      (hload : load.op.operation = .loadFunction) (hmethod : env.tables.resolveMethod load = .ok t)
      (hop : call.op.operation = .callIndirect)
      (hsignature : env.tables.resolveMethod call = .ok signature)
      (hparams : signature.params = t.params) (hreturn : signature.returnType = t.returnType)
      (hstatic : signature.isStatic = t.isStatic) (haccepts : Accepts env call e') :
      CallWay env t args [(load, e), (call, e')]
  | receiver {call : Instruction} {e : Effect} {declaring : TypeDescriptor} {this : UInt32}
      {rest : List (List UInt32)} (hop : call.op.operation = .callVirtual)
      (hmethod : env.tables.resolveMethod call = .ok t) (hinstance : t.isStatic = false)
      (hdeclaring : env.tables.typeFor call t.declaringType = .ok declaring)
      (hdelegate : declaring.isDelegate = false) (hvirtual : t.isVirtual = false)
      (hargs : args = [this] :: rest) (hthis : this ≠ 0) (haccepts : Accepts env call e) :
      CallWay env t args [(call, e)]

/-- Instructions that make a delegate of a method and that call it, with their effects. The delegate has
the parameters and the result of the method. -/
structure DelegateWay (env : SimEnv) (t : MethodDescriptor)
    (null load create invoke : Instruction × Effect) : Prop where
  loadsNull : null.1.op.operation = .loadNull
  loadsFunction : load.1.op.operation = .loadFunction
  function : env.tables.resolveMethod load.1 = .ok t
  creates : create.1.op.operation = .newObject
  created : ∃ ctor type, env.tables.resolveMethod create.1 = .ok ctor ∧
    env.tables.typeFor create.1 ctor.declaringType = .ok type ∧ type.isDelegate = true
  invokes : invoke.1.op.operation = .callVirtual
  invoked : ∃ signature type, env.tables.resolveMethod invoke.1 = .ok signature ∧
    env.tables.typeFor invoke.1 signature.declaringType = .ok type ∧ type.isDelegate = true ∧
    signature.params = t.params ∧ signature.returnType = t.returnType
  accepts : Accepts env invoke.1 invoke.2

/-- A method that is called and a return of it that the simulation has accepted. -/
structure SimulatedMethod (env : SimEnv) (caller callee : EmitContext) (ret : Instruction) (e' : Effect) :
    Prop where
  returns : ret.op.operation = .ret
  tables : caller.tables = env.tables
  pointerSize : env.pointerSize = 4
  options : caller.options.pointerSize = 4
  framed : Frame.ofMethod env.tables 4 callee.method = .ok callee.frame
  returned : Accepts { env with frame := callee.frame } ret e'

namespace SimulatedMethod

variable {env : SimEnv} {caller callee : EmitContext} {ret : Instruction} {e' : Effect}
  (h : SimulatedMethod env caller callee ret e')

include h

theorem frame_eq : Frame.ofMethod env.tables env.pointerSize callee.method = .ok callee.frame := by
  rw [h.pointerSize]
  exact h.framed

theorem poppedBytes : e'.poppedBytes = callee.frame.returnBytes := by
  obtain ⟨stack, stack', hret⟩ := h.returned
  exact ret_effect h.returns (returnBytes_lt h.framed (by decide)) hret

end SimulatedMethod

section Ways

variable {I R M : Type} [TargetInstr I] [LabelUse I] [Semantics I R M]

def templates (backend : Backend I) (ctx : EmitContext) (code : List (Instruction × Effect)) : List I :=
  code.flatMap fun (i, e) => (backend.emit ctx i e).code

/-- However a method is called, it runs on the arguments, and the result takes their place. -/
def CallsAgree (backend : Backend I) (env : SimEnv) (caller callee : EmitContext) (ret : Instruction)
    (e' : Effect) : Prop :=
  ∀ {args : List (List UInt32)} {way : List (Instruction × Effect)}, CallWay env callee.method args way →
    (∀ pair ∈ way, (backend.emit caller pair.1 pair.2).failure = none) →
  ∀ {p : Program I} {site entry exit stop : Nat}, Placed p site (templates backend caller way) →
    CalleePlaces backend p callee ret e' entry exit stop →
  ∀ {deep : List UInt32} {fp : UInt32} {m : M}, Fill (callee.frame.args.map FrameSlot.item) args →
    callee.frame.localSpan / 4 + (callee.frame.returnBytes / 4 + (pushedWords args ++ deep).length + 2) ≤
      stackCapacity →
    Poised I m site (pushedWords args ++ deep) fp →
    CallRuns backend p callee entry exit (site + (templates backend caller way).length) args deep deep fp m

/-- The arguments that a method is called on through a delegate: an instance method has the function
pointer as its receiver. -/
def delegateArgs (t : MethodDescriptor) (entry : Nat) (args : List (List UInt32)) : List (List UInt32) :=
  if t.isStatic then args else [codeAddress entry] :: args

/-- What else the delegate leaves under the arguments: the function pointer for a static method. -/
def delegateBelow (t : MethodDescriptor) (entry : Nat) : List UInt32 :=
  if t.isStatic then [codeAddress entry] else []

/-- A method runs on the explicit arguments of a delegate that was made of it, and the result takes the
place of the arguments and of the delegate. -/
def DelegatesAgree (backend : Backend I) (env : SimEnv) (caller callee : EmitContext) (ret : Instruction)
    (e' : Effect) : Prop :=
  ∀ {null load create invoke : Instruction × Effect},
    DelegateWay env callee.method null load create invoke →
    (∀ pair ∈ [null, load, create, invoke], (backend.emit caller pair.1 pair.2).failure = none) →
  ∀ {p : Program I} {site site' entry exit stop : Nat},
    Placed p site (templates backend caller [null, load, create]) →
    Placed p site' (templates backend caller [invoke]) →
    CalleePlaces backend p callee ret e' entry exit stop →
  ∀ {args : List (List UInt32)} {deep : List UInt32} {fp : UInt32} {m : M},
    Fill (callee.frame.args.map FrameSlot.item) (delegateArgs callee.method entry args) →
    callee.frame.localSpan / 4 +
      (callee.frame.returnBytes / 4 + (pushedWords args ++ codeAddress entry :: deep).length + 2) ≤
        stackCapacity →
    -- the code in between pushes the arguments
    (∀ {m' : M}, Poised I m' (site + (templates backend caller [null, load, create]).length)
        (codeAddress entry :: deep) fp →
      Reaches (Semantics.cycle p) m' fun m'' =>
        Poised I m'' site' (pushedWords args ++ codeAddress entry :: deep) fp) →
    Poised I m site deep fp →
    CallRuns backend p callee entry exit (site' + (templates backend caller [invoke]).length)
      (delegateArgs callee.method entry args) (delegateBelow callee.method entry ++ deep) deep fp m

/-- Calling a delegate that is null raises an exception for its site. -/
def NullDelegatesEnd (backend : Backend I) (env : SimEnv) (caller callee : EmitContext) : Prop :=
  ∀ {null load create invoke : Instruction × Effect},
    DelegateWay env callee.method null load create invoke →
    (backend.emit caller invoke.1 invoke.2).failure = none →
  ∀ {p : Program I} {site entry : Nat}, p.WellFormed → Placed p site (templates backend caller [invoke]) →
  ∀ {args : List (List UInt32)} {deep : List UInt32} {fp : UInt32} {m : M},
    Fill (callee.frame.args.map FrameSlot.item) (delegateArgs callee.method entry args) →
    (pushedWords args ++ 0 :: deep).length < stackCapacity →
    Poised I m site (pushedWords args ++ 0 :: deep) fp →
    Ends (Semantics.cycle p) (.nullReference (codeAddress (site + 3))) m

omit [TargetInstr I] in
theorem templates_cons (backend : Backend I) (ctx : EmitContext) (pair : Instruction × Effect)
    (code : List (Instruction × Effect)) :
    templates backend ctx (pair :: code) =
      (backend.emit ctx pair.1 pair.2).code ++ templates backend ctx code := List.flatMap_cons

omit [TargetInstr I] in
theorem templates_nil (backend : Backend I) (ctx : EmitContext) : templates backend ctx [] = [] := rfl

theorem CallRuns.after {backend : Backend I} {p : Program I} {callee : EmitContext}
    {entry exit next : Nat} {args : List (List UInt32)} {below rest : List UInt32} {fp : UInt32} {m : M}
    (h : Reaches (Semantics.cycle p) m (CallRuns backend p callee entry exit next args below rest fp)) :
    CallRuns backend p callee entry exit next args below rest fp m := h.trans fun _ hm => hm

end Ways

/-! ## What the calls count -/

theorem methodAndType_ok {ctx : EmitContext} {i : Instruction} {method : MethodDescriptor}
    {declaring : TypeDescriptor} (hmethod : ctx.tables.resolveMethod i = .ok method)
    (hdeclaring : ctx.tables.typeFor i method.declaringType = .ok declaring) :
    ctx.methodAndType i = .ok (method, declaring) := by
  rw [EmitContext.methodAndType, hmethod]
  show (do let t ← ctx.tables.typeFor i method.declaringType; return (method, t)) = _
  rw [hdeclaring]
  rfl

theorem pushedWords_delegateArgs (t : MethodDescriptor) (entry : Nat) (args : List (List UInt32))
    (deep : List UInt32) :
    pushedWords (delegateArgs t entry args) ++ (delegateBelow t entry ++ deep) =
      pushedWords args ++ codeAddress entry :: deep := by
  unfold delegateArgs delegateBelow
  split
  · rfl
  · rw [pushedWords_cons, List.append_assoc, List.nil_append, List.singleton_append]

theorem length_delegateArgs (t : MethodDescriptor) (entry : Nat) (args : List (List UInt32)) :
    (pushedWords (delegateArgs t entry args)).length + (delegateBelow t entry).length =
      (pushedWords args).length + 1 := by
  have hwords := congrArg List.length (pushedWords_delegateArgs t entry args [])
  simpa using hwords

section Counts

variable {env : SimEnv} {i : Instruction} {e : Effect} {signature callee : MethodDescriptor}
  {frame : Frame} (hpointer : env.pointerSize = 4)
  (hframe : Frame.ofMethod env.tables env.pointerSize callee = .ok frame)
  (hparams : signature.params = callee.params) (hreturn : signature.returnType = callee.returnType)
  (hsignature : env.tables.resolveMethod i = .ok signature) (haccepts : Accepts env i e)

include hframe in
theorem argBytes_of_frame : frame.argBytes = frame.argSpan % 2 ^ 32 := by
  obtain ⟨this, params, locals, hof, -⟩ := ofMethod_ok hframe
  exact hof.argBytes_eq

include hpointer hframe

theorem pushedBytes_of_total (hpushed : totalBytes e.pushed = frame.returnBytes) :
    e.pushedBytes = frame.returnBytes := by
  have hsize : env.pointerSize < 2 ^ 32 := by omega
  rw [Effect.pushedBytes, countBytes_eq, hpushed, Nat.mod_eq_of_lt (returnBytes_lt hframe hsize)]

include hparams hreturn hsignature haccepts

/-- An indirect call pops the function pointer besides the arguments. -/
theorem callIndirect_effect (hop : i.op.operation = .callIndirect)
    (hstatic : signature.isStatic = callee.isStatic) :
    e.bytesBelow = frame.argBytes ∧ e.pushedBytes = frame.returnBytes := by
  obtain ⟨stack, stack', hsimulate⟩ := haccepts
  have hsizes := (simulate_exchange hsimulate).sizes
  rw [hop] at hsizes
  obtain ⟨m, hm, hcounts⟩ := hsizes
  obtain rfl := Except.ok.inj (hm.symm.trans hsignature)
  obtain ⟨hpopped, hpushed⟩ := callSizes_bytes hframe hparams hreturn hcounts
  obtain ⟨items, result, -, -, hall⟩ := hcounts
  refine ⟨?_, pushedBytes_of_total hpointer hframe hpushed⟩
  rw [hstatic, ite_not_static, List.sum_singleton] at hpopped
  have hsum := Nat.add_right_cancel hpopped
  rw [hall.totalPopped, List.singleton_append, List.sum_cons] at hsum
  rw [hall.bytesBelow, argBytes_of_frame hframe]
  exact congrArg (· % 2 ^ 32) (Nat.add_left_cancel hsum)

/-- A virtual call pops a receiver, whether or not the method that runs has one. -/
theorem callVirtual_effect (hop : i.op.operation = .callVirtual) :
    totalBytes e.popped + (if callee.isStatic then 0 else 4) = frame.argSpan + 4 ∧
      e.pushedBytes = frame.returnBytes := by
  obtain ⟨stack, stack', hsimulate⟩ := haccepts
  have hsizes := (simulate_exchange hsimulate).sizes
  rw [hop] at hsizes
  obtain ⟨m, hm, hcounts⟩ := hsizes
  obtain rfl := Except.ok.inj (hm.symm.trans hsignature)
  obtain ⟨hpopped, hpushed⟩ := callSizes_bytes hframe hparams hreturn hcounts
  rw [List.sum_nil, Nat.zero_add, if_pos rfl, hpointer] at hpopped
  exact ⟨hpopped, pushedBytes_of_total hpointer hframe hpushed⟩

theorem callReceiver_effect (hop : i.op.operation = .callVirtual) (hinstance : callee.isStatic = false) :
    e.poppedBytes = frame.argBytes ∧ e.pushedBytes = frame.returnBytes := by
  obtain ⟨hpopped, hpushed⟩ := callVirtual_effect hpointer hframe hparams hreturn hsignature haccepts hop
  rw [hinstance, if_neg Bool.false_ne_true] at hpopped
  rw [Effect.poppedBytes, countBytes_eq, Nat.add_right_cancel hpopped, argBytes_of_frame hframe]
  exact ⟨rfl, hpushed⟩

/-- The call of a delegate pops the explicit arguments and the delegate. -/
theorem invoke_effect (hop : i.op.operation = .callVirtual) {entry : Nat} {args : List (List UInt32)}
    (hfill : Fill (frame.args.map FrameSlot.item) (delegateArgs callee entry args))
    (hroom : (pushedWords args).length ≤ stackCapacity) :
    e.poppedBytes = 4 * (pushedWords args).length + 4 ∧ e.pushedBytes = frame.returnBytes := by
  obtain ⟨hpopped, hpushed⟩ := callVirtual_effect hpointer hframe hparams hreturn hsignature haccepts hop
  refine ⟨?_, hpushed⟩
  have hcapacity : stackCapacity < 2 ^ 20 := by decide
  have hspan : frame.argSpan = 4 * (pushedWords (delegateArgs callee entry args)).length := hfill.totalBytes
  have htotal : totalBytes e.popped = 4 * (pushedWords args).length + 4 := by
    rw [hspan] at hpopped
    unfold delegateArgs at hpopped
    split at hpopped
    · exact hpopped
    · rw [pushedWords_cons, List.length_append, List.length_singleton] at hpopped
      omega
  rw [Effect.poppedBytes, countBytes_eq, htotal, Nat.mod_eq_of_lt (by omega)]

end Counts

theorem ofNat_add_sub (n k : Nat) : UInt32.ofNat (n + k) - UInt32.ofNat k = UInt32.ofNat n := by
  rw [UInt32.ofNat_add]
  exact UInt32.add_sub_cancel _ _

theorem receiver_offset (front : List UInt32) {bytes size : Nat} {disp : Int32}
    (hdisp : disp.toUInt32 = UInt32.ofNat bytes - UInt32.ofNat size)
    (hbytes : bytes = 4 * front.length + 4) (hsize : size = 4) :
    disp.toUInt32 = 4 * UInt32.ofNat front.length := by
  rw [hdisp, hbytes, hsize, ofNat_add_sub, ofNat_four_mul]

theorem codeAddress_ne_zero {k : Nat} (h : k ≤ codeLimit) : codeAddress k ≠ 0 := by
  intro hzero
  have haddress := toNat_codeAddress h
  rw [hzero] at haddress
  simp only [UInt32.toNat_zero] at haddress
  omega

end Stencil
