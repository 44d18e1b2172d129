import Stencil.Proofs.Labels.Targets
import Stencil.Proofs.Machine.Symbols
import Stencil.Proofs.Running.Method

/-!
# Invocations of a compiled method

An invocation pushes the arguments, leaves room for the result, and calls the method; what the method
returns to is no instruction, and there the run ends. `Invokes` says so for a target, and
`runsAsMeant_of_invokes` that every method of the fragment then runs as it means.
-/

namespace Stencil

open AddressMap Compile Invocation Link Meaning Stateful

/-! ## The outermost return -/

/-- The index that the outermost return goes to; no program has an instruction there. -/
def sentinelIndex : Nat := 0x1FFFFFFC

theorem codeAddress_sentinelIndex : codeAddress sentinelIndex = returnSentinel := by decide

theorem Program.indexOf_returnSentinel {I : Type} {p : Program I} (hfits : p.code.size ≤ codeLimit) :
    p.indexOf returnSentinel = .error (.invalidInstruction returnSentinel) := by
  have hindex : ((returnSentinel - codeBase) / 4).toNat = sentinelIndex := by decide
  have hsize : p.code.size ≤ sentinelIndex := hfits.trans (by decide)
  unfold indexOf
  simp only [hindex, hsize, or_true, if_true]

theorem stackPointer_sub_bytes (front words : List UInt32) :
    stackPointer words - UInt32.ofNat (4 * front.length) = stackPointer (front ++ words) := by
  rw [← stackPointer_append front words, ofNat_four_mul, UInt32.add_sub_cancel]

theorem toNat_words_of_bytes {count : Nat} (h : count ≤ stackCapacity) :
    (UInt32.ofNat (4 * count) / 4).toNat = count := by
  have hlt : 4 * count < 2 ^ 32 := by
    unfold stackCapacity at h
    omega
  rw [UInt32.toNat_div, UInt32.toNat_ofNat_of_lt' hlt]
  exact Nat.mul_div_cancel_left _ (by decide)

/-- The stack pointer that the arguments and the return slot leave. -/
theorem returnSp_eq {args : List StackValue} (value : List UInt32) {rest : List UInt32}
    (hrest : rest.length = (argumentWords args).length) :
    returnSp args (UInt32.ofNat (4 * value.length)) = stackPointer (value ++ rest) := by
  have hpush : ∀ words : List UInt32, args.foldl (fun sp arg => sp - arg.bytes) (stackPointer words) =
      stackPointer (argumentWords args ++ words) := by
    clear hrest
    induction args with
    | nil => exact fun _ => rfl
    | cons arg args ih =>
      intro words
      have hbytes : arg.bytes = UInt32.ofNat (4 * arg.words.length) := by cases arg <;> rfl
      rw [List.foldl_cons, hbytes, stackPointer_sub_bytes, ih]
      refine stackPointer_of_length ?_
      simp only [argumentWords, List.flatMap_cons, List.length_append]
      omega
  have htop : stackTop = stackPointer [] := rfl
  rw [returnSp, htop, hpush, List.append_nil, stackPointer_of_length hrest.symm, stackPointer_sub_bytes]

theorem Memory.Holds.read_value {m : Memory} {value rest : List UInt32} (h : m.Holds (value ++ rest))
    {k : Nat} (hk : k < value.length) :
    m.read (stackPointer (value ++ rest) + 4 * UInt32.ofNat k) 4 = .ok value[k] := by
  have hsplit : value ++ rest = value.take k ++ value[k] :: (value.drop (k + 1) ++ rest) := by
    rw [← List.cons_append, List.getElem_cons_drop, ← List.append_assoc, List.take_append_drop]
  have haddress := stackPointer_word (value.take k) value[k] (value.drop (k + 1) ++ rest)
  rw [List.length_take_of_le (by omega), ← hsplit] at haddress
  rw [haddress]
  rw [hsplit] at h
  exact h.read

theorem mapM_range_of_ok {ε σ β : Type} {f : Nat → EStateM ε σ β} {s : σ} {bs : List β}
    (h : ∀ k (hk : k < bs.length), f k s = .ok bs[k] s) : (List.range bs.length).mapM f s = .ok bs s := by
  have hmany : ∀ {as : List Nat} {bs : List β}, List.Forall₂ (fun a b => f a s = .ok b s) as bs →
      as.mapM f s = .ok bs s := by
    intro as bs hall
    induction hall with
    | nil => rfl
    | cons hb _ ih => exact mapM_cons_eq_ok.mpr ⟨_, _, _, hb, ih, rfl⟩
  refine hmany (List.forall₂_iff_get.mpr ⟨List.length_range, fun k hk hk' => ?_⟩)
  simpa using h k hk'

/-! ## What a target does -/

section Invokes

variable {I R M : Type} [TargetInstr I] [LabelUse I] [Semantics I R M]

/-- The words from the frame pointer up when an invocation has set up a frame. -/
def invokedWords (saved : UInt32) (slot : List UInt32) (args : List StackValue) : List UInt32 :=
  saved :: returnSentinel :: (slot ++ (argumentWords args).reverse)

/-- An invocation gets behind the start of the method, with room for the result and all locals zero. If the
method gets back from there with a value, the invocation returns it, however many more steps it may take. -/
structure Invokes (backend : Backend I) (machine : MachineOps I M) : Prop where
  returns : ∀ {p : Program I} {ctx : EmitContext} {e : Effect} {entry count : Nat} {symbol : Symbol}
    {args : List StackValue} {value : List UInt32} (start : M),
    p.code.size ≤ codeLimit → p.resolve symbol = .ok (codeAddress entry) →
    Placed p entry (backend.emit ctx (.pseudo 0 .methodStart) e).code →
    ctx.frame.localBytes / 4 + (count + (argumentWords args).length + 2) ≤ stackCapacity →
    (∀ {mach : M} {slot : List UInt32} {saved : UInt32}, slot.length = count →
      Poised I mach (entry + (backend.emit ctx (.pseudo 0 .methodStart) e).code.length)
        (List.replicate (ctx.frame.localBytes / 4) 0 ++ invokedWords saved slot args)
        (stackPointer (invokedWords saved slot args)) →
      Reaches (Semantics.cycle p) mach fun m' => ∃ rest fp, value.length = count ∧
        rest.length = (argumentWords args).length ∧ Poised I m' sentinelIndex (value ++ rest) fp) →
    ∃ limit, ∀ n, limit ≤ n → ∃ t,
      machine.invoke { p with stepLimit := n } symbol args (UInt32.ofNat (4 * count)) start = .ok value t

end Invokes

/-! ## The start of a method -/

section Start

variable {slots : List FrameSlot} {words : List UInt32}

theorem pushedWords_fill (hlength : words.length = (slots.map (·.item.words)).sum) :
    pushedWords (fill slots words) = words.reverse := by
  induction slots generalizing words with
  | nil =>
    obtain rfl := List.length_eq_zero_iff.mp hlength
    rfl
  | cons slot rest ih =>
    rw [List.map_cons, List.sum_cons] at hlength
    rw [fill, pushedWords_cons, ih (by rw [List.length_drop]; omega), ← List.reverse_append,
      List.take_append_drop]

theorem fill_fill (hlength : words.length = (slots.map (·.item.words)).sum)
    (hsizes : ∀ slot ∈ slots, slot.item.size % 4 = 0) :
    Fill (slots.map FrameSlot.item) (fill slots words) := by
  induction slots generalizing words with
  | nil => exact .nil
  | cons slot rest ih =>
    rw [List.map_cons, List.sum_cons] at hlength
    have hsize := hsizes slot List.mem_cons_self
    refine .cons ?_ (ih (by rw [List.length_drop]; omega) fun s hs => hsizes s (List.mem_cons_of_mem _ hs))
    rw [List.length_reverse, List.length_take_of_le (by omega), StackItem.words]
    omega

theorem sum_words (hsizes : ∀ slot ∈ slots, slot.item.size % 4 = 0) :
    4 * (slots.map (·.item.words)).sum = totalBytes (slots.map FrameSlot.item) := by
  induction slots with
  | nil => rfl
  | cons slot rest ih =>
    have hsize := hsizes slot List.mem_cons_self
    have hrest := ih fun s hs => hsizes s (List.mem_cons_of_mem _ hs)
    have hwords : 4 * slot.item.words = slot.item.size := by
      rw [StackItem.words]
      omega
    rw [List.map_cons, List.map_cons, List.sum_cons, totalBytes]
    omega

theorem fill_zeros (hsizes : ∀ slot ∈ slots, slot.item.size % 4 = 0) :
    Fill (slots.map FrameSlot.item) (slots.map fun slot => List.replicate slot.item.words 0) := by
  rw [Fill, List.forall₂_map_left_iff, List.forall₂_map_right_iff, List.forall₂_same]
  intro slot hslot
  have hsize := hsizes slot hslot
  rw [List.length_replicate, StackItem.words]
  omega

theorem pushedWords_zeros (slots : List FrameSlot) :
    pushedWords (slots.map fun slot => List.replicate slot.item.words 0) =
      List.replicate (slots.map (·.item.words)).sum 0 := by
  induction slots with
  | nil => rfl
  | cons slot rest ih =>
    rw [List.map_cons, pushedWords_cons, ih, List.replicate_append_replicate, List.map_cons, List.sum_cons,
      Nat.add_comm]

end Start

section Frame

variable {tables : Table} {method : MethodDescriptor} {frame : Frame}

theorem ofMethod_sizes (h : Frame.ofMethod tables 4 method = .ok frame) :
    (∀ slot ∈ frame.args, slot.item.size % 4 = 0) ∧ (∀ slot ∈ frame.locals, slot.item.size % 4 = 0) ∧
      frame.returnBytes % 4 = 0 := by
  obtain ⟨hargs, hlocals⟩ := whole_of_ofMethod h
  exact ⟨fun slot hslot => Nat.mod_eq_zero_of_dvd (hargs slot hslot),
    fun slot hslot => Nat.mod_eq_zero_of_dvd (hlocals slot hslot), (words_of_ofMethod h).2.2⟩

theorem suits_start (h : Frame.ofMethod tables 4 method = .ok frame) {args : List StackValue}
    (hargs : 4 * (argumentWords args).length = frame.argSpan) :
    Suits frame [] (start frame args) ∧
      pushedWords (start frame args).args = (argumentWords args).reverse ∧
      pushedWords (start frame args).locals = List.replicate (frame.localSpan / 4) 0 := by
  obtain ⟨hargSizes, hlocalSizes, -⟩ := ofMethod_sizes h
  have hlength : (argumentWords args).length = (frame.args.map (·.item.words)).sum := by
    have hsum := sum_words hargSizes
    rw [Frame.argSpan] at hargs
    omega
  refine ⟨⟨.nil, fill_fill hlength hargSizes, fill_zeros hlocalSizes⟩, pushedWords_fill hlength, ?_⟩
  have hcount : frame.localSpan / 4 = (frame.locals.map (·.item.words)).sum := by
    have hsum := sum_words hlocalSizes
    rw [Frame.localSpan]
    omega
  rw [hcount]
  exact pushedWords_zeros frame.locals

end Frame

section Enter

variable {I R M : Type} [TargetInstr I] {backend : Backend I} {tables : Table} {options : Options}
  {body : MethodBody} {m : CompiledMethod I}

theorem Compilation.placed_start (c : Compilation backend tables options body m) {p : Program I}
    (hp : Hosts p m) (hbody : PlainBody body.instructions) :
    ∃ e, Placed p 0 (backend.emit c.ctx (.pseudo 0 .methodStart) e).code ∧
      c.base 1 = (backend.emit c.ctx (.pseudo 0 .methodStart) e).code.length := by
  have hfirst : c.marked[0]? = some (.pseudo 0 .methodStart) := by
    rw [c.marked_eq hbody]
    rfl
  obtain ⟨step, -, -, hplaced, hbase⟩ := c.placed hp hfirst
  exact ⟨step.effect, hplaced, hbase.trans (Nat.zero_add _)⟩

variable [LabelUse I] [Semantics I R M]

/-- Behind the start of a method the machine is about to run the first instruction. -/
theorem inside_start {c : Compilation backend tables options body m} (hbody : PlainBody body.instructions)
    (hfirst : ∃ i ∈ body.instructions, i.position = 0) {args : List StackValue}
    (hargs : 4 * (argumentWords args).length = c.frame.argSpan) {mach : M} {slot : List UInt32}
    {saved : UInt32}
    (h : Poised I mach (c.base 1) (List.replicate (c.frame.localSpan / 4) 0 ++ invokedWords saved slot args)
      (stackPointer (invokedWords saved slot args))) :
    Inside c ⟨saved, returnSentinel, slot, []⟩ 0 (start c.frame args) mach := by
  have hframed : Frame.ofMethod tables 4 c.method = .ok c.frame := c.pointerSize_eq ▸ c.framed
  obtain ⟨hsuits, hwords, hlocals⟩ := suits_start hframed hargs
  have habove : (Activation.mk saved returnSentinel slot []).above (start c.frame args).args =
      invokedWords saved slot args := by
    rw [Activation.above, frameWords, hwords, List.append_nil, invokedWords]
  -- the first instruction starts with an empty operand stack
  obtain ⟨i, hi, hposition⟩ := hfirst
  obtain ⟨head, hhead, hposition⟩ : ∃ head, body.instructions[0]? = some head ∧ head.position = 0 := by
    have hcontiguous := hbody.contiguous
    cases hinstructions : body.instructions with
    | nil =>
      rw [hinstructions] at hi
      cases hi
    | cons head rest =>
      rw [hinstructions] at hcontiguous
      exact ⟨head, rfl, hcontiguous.1⟩
  have hmarked₀ : c.marked[0]? = some (.pseudo 0 .methodStart) := by
    rw [c.marked_eq hbody]
    rfl
  have hmarked := c.marked_succ hbody hhead
  obtain ⟨targets, step, w, u, w', hvisit⟩ := Walk.visit_of_getElem? c.rewalked hmarked₀
  obtain ⟨targets', step', v, v', v'', hvisit'⟩ := Walk.visit_of_getElem? c.rewalked hmarked
  have hstack' := hvisit'.stackAt? hmarked
  have halike := Walk.edge_alike c.rewalked (c.nodup_positions hbody) (.next hmarked₀ rfl) hmarked₀ hvisit hstack'
  have hempty : w'.stack = [] := by
    have hbefore := hvisit.before
    obtain ⟨-, rfl⟩ := EStateM.Result.ok.inj hbefore
    obtain ⟨-, rfl⟩ := EStateM.Result.ok.inj hvisit.stepped.enter
    exact (EStateM.Result.ok.inj hvisit.stepped.simulate).2.symm
  rw [hempty] at halike
  refine ⟨⟨head, hhead, hposition⟩, ⟨v'.stack, hstack', halike.fill hsuits.stack, hsuits.args, hsuits.locals⟩,
    ?_⟩
  · rw [Activation.words, Activation.pointer, habove, hlocals]
    exact h

end Enter

/-! ## Linked methods -/

/-- The symbols of types, static fields and strings. -/
def Table.dataSymbols (t : Table) : List Symbol :=
  t.types.map TypeDescriptor.symbol ++
    (t.fields.filter FieldDescriptor.isStatic).map FieldDescriptor.symbol ++
    t.strings.map StringLiteral.symbol

section Link

variable {I : Type} [TargetInstr I] {m : CompiledMethod I} {tables : Table} {options : Options}
  {config : RunConfig} {p : Program I} {store : Store}

/-- A method whose symbol is not that of data is found. -/
theorem resolve_of_visible (hlink : link [m] tables options config = .ok (p, store))
    (hvisible : m.symbol ∉ tables.dataSymbols) : p.resolve m.symbol = .ok (codeAddress 0) := by
  obtain ⟨places, next, statics, next', strings, next'', hplaces, hstatics, hstrings, hbound⟩ :=
    (link_ok hlink).symbols
  rw [Table.dataSymbols, List.mem_append, List.mem_append, not_or, not_or] at hvisible
  obtain ⟨⟨htype, hstatic⟩, hstring⟩ := hvisible
  have htypes : m.symbol ∉ (places.map fun place => (place.type.symbol, place.address)).map Prod.fst := by
    rw [← types_of_placeTypes hplaces, List.map_map] at htype
    rwa [List.map_map]
  rw [← map_fst_placeStrings hstrings, List.map_map] at hstring
  rw [← map_fst_placeStatics hstatics] at hstatic
  rw [Program.resolve, hbound, bindAll_append, getElem?_bindAll_of_notMem, bindAll_append,
    getElem?_bindAll_of_notMem hstatic, bindAll_append, getElem?_bindAll_of_notMem htypes, bindAll_append,
    getElem?_bindAll]
  · simp [placeMethods]
  · rwa [List.map_map]

theorem link_stepLimit (hlink : link [m] tables options config = .ok (p, store)) (n : Nat) :
    link [m] tables options { config with stepLimit := n } = .ok ({ p with stepLimit := n }, store) := by
  unfold link at hlink ⊢
  obtain ⟨⟨types, next⟩, htypes, hlink⟩ := answer_bind.mp hlink
  obtain ⟨memory, hmemory, hlink⟩ := answer_bind.mp hlink
  obtain ⟨⟨statics, next'⟩, hstatics, hlink⟩ := answer_bind.mp hlink
  obtain ⟨⟨strings, next''⟩, hstrings, hlink⟩ := answer_bind.mp hlink
  obtain ⟨memory', hmemory', hlink⟩ := answer_bind.mp hlink
  obtain ⟨rfl, rfl⟩ := Prod.mk.inj (Except.ok.inj hlink)
  exact answer_bind.mpr ⟨_, htypes, answer_bind.mpr ⟨_, hmemory, answer_bind.mpr ⟨_, hstatics,
    answer_bind.mpr ⟨_, hstrings, answer_bind.mpr ⟨_, hmemory', rfl⟩⟩⟩⟩⟩

end Link

/-! ## Compiler correctness -/

section Correct

variable {I M : Type} [TargetInstr I]

/-- A compiled method of the fragment, arguments that fill its parameters, and an execution of its body that
returns a value and keeps within the stack. -/
structure Meant (rule : CountRule) (backend : Backend I) (tables : Table) (options : Options)
    (lines : List Line) (body : MethodBody) (m : CompiledMethod I) (args : List StackValue) (steps : Nat)
    (value : Value) : Prop where
  compiled : CompiledFrom backend tables options lines body m
  fragment : ∀ i ∈ body.instructions, inFragment i.op.operation = true
  /-- The code ends below the intrinsics. -/
  fits : m.code.length ≤ codeLimit
  filled : 4 * (argumentWords args).length = m.frame.argSpan
  /-- The frame and the deepest operand stack lie between the unmapped page and the top of the stack. -/
  room : nullGuard.toNat + (m.frame.argSpan + m.frame.returnBytes + 8 + m.frame.localSpan +
    4 * deepest rule body.instructions steps (start m.frame args)) ≤ stackTop.toNat
  returns : run rule body.instructions steps (start m.frame args) = some value

/-- Linked and invoked with any step limit that is large enough, the method returns the value. -/
def Returns (machine : MachineOps I M) (tables : Table) (options : Options) (config : RunConfig)
    (m : CompiledMethod I) (args : List StackValue) (value : Value) (before : M) : Prop :=
  ∃ limit, ∀ n, limit ≤ n →
    ∃ p store after, link [m] tables options { config with stepLimit := n } = .ok (p, store) ∧
      machine.invoke p m.symbol args (UInt32.ofNat m.frame.returnBytes) before = .ok value after

/-- From every state of the machine a linked method that no data hides returns what its body means. -/
def RunsAsMeant (rule : CountRule) (backend : Backend I) (machine : MachineOps I M) : Prop :=
  ∀ {tables : Table} {options : Options} {lines : List Line} {body : MethodBody} {m : CompiledMethod I}
    {args : List StackValue} {steps : Nat} {value : Value} {config : RunConfig} {p : Program I}
    {store : Store}, Meant rule backend tables options lines body m args steps value →
    m.symbol ∉ tables.dataSymbols → link [m] tables options config = .ok (p, store) →
    ∀ before : M, Returns machine tables options config m args value before

variable {R : Type} [LabelUse I] [Semantics I R M] {backend : Backend I} {machine : MachineOps I M}

theorem runsAsMeant_of_invokes (hruns : RunsMethods backend) (hinvokes : Invokes backend machine) :
    RunsAsMeant .saturating backend machine := by
  intro tables options lines body m args steps value config p store h hvisible hlink before
  have hbody := h.compiled.plainBody
  obtain ⟨c⟩ := compileMethod_ok h.compiled.compiled
  have hlinked := link_ok hlink
  have hclosed := compileMethod_labelsClosed hruns.labels hbody h.compiled.compiled
  have hcode : [m].flatMap CompiledMethod.code = m.code := by simp
  have hp : Hosts p m := by
    refine ⟨?_, ?_, ?_, hclosed.bound_once⟩
    · rw [hlinked.code, hcode]
      exact h.fits
    · rw [hlinked.code, hcode]
    · rw [hlinked.labels, hcode]
  obtain ⟨e, hplaced, hbase⟩ := c.placed_start hp hbody
  have hframe := c.frame_eq
  have hframed : Frame.ofMethod tables 4 c.method = .ok c.frame := c.pointerSize_eq ▸ c.framed
  obtain ⟨-, -, hreturn⟩ := ofMethod_sizes hframed
  have hfilled := h.filled
  have hroom := h.room
  have hmeant := h.returns
  rw [hframe] at hfilled hroom hmeant
  have hcount : 4 * (c.frame.returnBytes / 4) = c.frame.returnBytes := by omega
  have hcapacity : 4 * stackCapacity = stackTop.toNat - nullGuard.toNat := by decide
  obtain ⟨⟨items, localItems, hof⟩, -, -⟩ := words_of_ofMethod hframed
  have hspan := hof.localBytes_eq (by omega)
  have hguard : nullGuard.toNat ≤ stackTop.toNat := by decide
  obtain ⟨limit, hlimit⟩ : ∃ limit, ∀ n, limit ≤ n → ∃ t, machine.invoke { p with stepLimit := n } m.symbol
      args (UInt32.ofNat (4 * (c.frame.returnBytes / 4))) before = .ok value t := by
    refine hinvokes.returns before hp.fits (resolve_of_visible hlink hvisible) hplaced ?_ ?_
    · show c.frame.localBytes / 4 + (c.frame.returnBytes / 4 + (argumentWords args).length + 2) ≤ _
      omega
    · intro mach slot saved hslot hpoised
      rw [Nat.zero_add, ← hbase] at hpoised
      change Poised I mach _ (List.replicate (c.frame.localBytes / 4) 0 ++ _) _ at hpoised
      rw [hspan] at hpoised
      have hinside := inside_start hbody (Meaning.exists_of_run hmeant) hfilled hpoised
      obtain ⟨-, hwords, hlocals⟩ := suits_start hframed hfilled
      have hdeep : deepest .saturating body.instructions steps (start c.frame args) +
          ((Activation.mk saved returnSentinel slot []).words (start c.frame args)).length ≤
            stackCapacity + (start c.frame args).height := by
        have hstack : (start c.frame args).stack = [] := rfl
        rw [State.height, Activation.words, Activation.above, frameWords, hwords, hlocals, hstack]
        simp only [List.flatten_nil, List.length_append, List.length_cons, List.length_replicate,
          List.length_reverse, List.length_nil, hslot]
        omega
      obtain ⟨hlength, hreach⟩ := returns_of_run hruns hbody h.fragment hp (by dsimp only; omega)
        codeAddress_sentinelIndex.symm hmeant hdeep hinside
      refine hreach.mono fun m' hm' => ?_
      obtain ⟨rest, hrest, hm'⟩ := hm'
      rw [List.append_nil] at hm'
      exact ⟨rest, saved, by omega, by omega, hm'⟩
  refine ⟨limit, fun n hn => ?_⟩
  obtain ⟨t, ht⟩ := hlimit n hn
  rw [hcount, ← hframe] at ht
  exact ⟨_, _, t, link_stepLimit hlink n, ht⟩

end Correct

end Stencil
