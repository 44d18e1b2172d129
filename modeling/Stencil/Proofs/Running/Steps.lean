import Stencil.Proofs.Arithmetic.Computes
import Stencil.Proofs.Calls.Agreement
import Stencil.Proofs.Errors.Lookups
import Stencil.Proofs.Execution.Moves
import Stencil.Proofs.Walk.Soundness

/-!
# Steps of a method that runs

The machine has the values of a state in its stack: the operand stack lowest, then the locals, and the
arguments above the frame pointer. What an instruction does to the state its template does to these words
(`mirrors_of_step`), for every operation that has a meaning.
-/

namespace Stencil

open Meaning Meaning.Value Stateful

/-! ## Values of the sizes of items -/

def Meaning.Value.bytes (v : Value) : Nat := 4 * v.length

theorem fill_iff {items : List StackItem} {values : List Value} :
    Fill items values ↔ items.map StackItem.size = values.map Value.bytes := by
  rw [Fill, ← List.forall₂_eq_eq_eq, List.forall₂_map_left_iff, List.forall₂_map_right_iff]
  rfl

theorem AlikeItems.fill {items items' : List StackItem} {values : List Value}
    (halike : AlikeItems items items') (h : Fill items' values) : Fill items values := by
  rw [fill_iff] at h ⊢
  rw [halike.sizes_eq, h]

theorem Fill.set {items : List StackItem} {values : List Value} (h : Fill items values) {index : Nat}
    {item : StackItem} (hitem : items[index]? = some item) {v : Value} (hsize : item.size = v.bytes) :
    Fill items (values.set index v) := by
  obtain ⟨hindex, rfl⟩ := List.getElem?_eq_some_iff.mp hitem
  rw [fill_iff] at h ⊢
  rw [List.map_set, ← h, ← hsize, ← List.map_set, List.set_getElem_self]

theorem isInteger_of_bytes {v : Value} (h : IntegerSize v.bytes) : v.isInteger = true := by
  unfold IntegerSize bytes at h
  rw [isInteger, Bool.or_eq_true, beq_iff_eq, beq_iff_eq]
  omega

/-- Values on top of the stack take the place of those that were popped. -/
theorem Exchange.fill {env : SimEnv} {i : Instruction} {stack stack' : OperandStack} {e : Effect}
    (h : Exchange env i stack e stack') {front tail : List Value} (hfill : Fill stack (front ++ tail))
    (hfront : front.length = e.popped.length) :
    e.popped.map StackItem.size = front.map Value.bytes ∧
      ∀ results : List Value, e.pushed.map StackItem.size = (results.map Value.bytes).reverse →
        Fill stack' (results ++ tail) := by
  obtain ⟨rest, rfl, rfl⟩ := h.below
  rw [fill_iff, List.map_append, List.map_append] at hfill
  obtain ⟨hpopped, hrest⟩ := List.append_inj hfill (by rw [List.length_map, List.length_map, hfront])
  refine ⟨hpopped, fun results hresults => ?_⟩
  rw [fill_iff, List.map_append, List.map_append, List.map_reverse, hresults, List.reverse_reverse, hrest]

/-! ## The stack of the machine -/

/-- What lies around the arguments of a method that runs. -/
structure Activation where
  saved : UInt32
  back : UInt32
  slot : List UInt32
  deep : List UInt32

namespace Activation

def above (a : Activation) (args : List Value) : List UInt32 :=
  frameWords a.saved a.back a.slot args a.deep

def words (a : Activation) (s : State) : List UInt32 :=
  s.stack.flatten ++ (pushedWords s.locals ++ a.above s.args)

def pointer (a : Activation) (s : State) : UInt32 := stackPointer (a.above s.args)

theorem words_append (a : Activation) (s : State) (position : Nat) (front tail : List Value) :
    a.words { s with position, stack := front ++ tail } =
      front.flatten ++ a.words { s with stack := tail } := by
  rw [words, words, List.flatten_append, List.append_assoc]

end Activation

/-- The values of a state have the sizes that the walk and the frame know. -/
structure Suits (frame : Frame) (stack : OperandStack) (s : State) : Prop where
  stack : Fill stack s.stack
  args : Fill (frame.args.map FrameSlot.item) s.args
  locals : Fill (frame.locals.map FrameSlot.item) s.locals

/-- As long as the stack can hold the operands, their bytes are counted exactly. -/
theorem Suits.countBytes_eq {frame : Frame} {stack : OperandStack} {s : State} (h : Suits frame stack s)
    (hheld : s.stack.flatten.length ≤ stackCapacity) : countBytes stack = 4 * s.stack.flatten.length := by
  have hcapacity : stackCapacity < 2 ^ 20 := by decide
  have htotal : totalBytes stack = 4 * s.stack.flatten.length := by
    rw [h.stack.totalBytes, pushedWords, List.length_flatten, List.length_flatten, List.map_reverse,
      List.sum_reverse]
  rw [← htotal]
  exact countBytes_of_lt (by omega)

theorem Suits.pointer_eq {frame : Frame} {stack stack' : OperandStack} {s s' : State}
    (h : Suits frame stack s) (h' : Suits frame stack' s') (a : Activation) :
    a.pointer s' = a.pointer s := by
  refine stackPointer_of_length ?_
  have hargs := h.args.totalBytes
  have hargs' := h'.args.totalBytes
  simp only [Activation.above, frameWords, List.length_cons, List.length_append]
  omega

/-! ### Arguments and locals -/

def Meaning.State.slots (isArg : Bool) (s : State) : List Value := if isArg then s.args else s.locals

def Meaning.State.store (isArg : Bool) (index : Nat) (v : Value) (s : State) : State :=
  if isArg then { s with args := s.args.set index v } else { s with locals := s.locals.set index v }

section Slots

variable {frame : Frame} {items localItems : List StackItem} {stack : OperandStack} {s : State}
  {a : Activation} {isArg : Bool} {index : Nat} {place : FrameSlot}

/-- The value of a slot lies at its offset, and a store puts another one there. -/
theorem Suits.lies (h : Suits frame stack s) (hof : FrameOf frame items localItems)
    (hslot : 4 * a.slot.length = frame.returnBytes)
    (hplace : (if isArg then frame.args else frame.locals)[index]? = some place) :
    ∃ value front rest, (s.slots isArg)[index]? = some value ∧ place.item.size = value.bytes ∧
      Lies (a.words s) (a.pointer s) place.offset front value rest ∧
      ∀ v, a.words (s.store isArg index v) = front ++ (v ++ rest) := by
  cases isArg with
  | true =>
    have hfill := h.args
    rw [hof.args, map_item_argSlots] at hfill
    have hplace' : (Frame.argSlots (4 * a.slot.length) items)[index]? = some place := by
      rw [hslot, ← hof.args]
      exact hplace
    obtain ⟨value, front, rest, hvalue, hsize, hlies, hset⟩ :=
      @lies_argument items a.saved a.back a.slot a.deep s.args hfill index place hplace'
    have hbelow := hlies.below (s.stack.flatten ++ pushedWords s.locals)
    rw [List.append_assoc s.stack.flatten] at hbelow
    refine ⟨value, _, rest, hvalue, hsize, hbelow, fun v => ?_⟩
    · show s.stack.flatten ++ (pushedWords s.locals ++ a.above (s.args.set index v)) = _
      rw [Activation.above, hset]
      simp only [List.append_assoc]
  | false =>
    have hfill := h.locals
    rw [hof.locals, map_item_localSlots] at hfill
    have hplace' : (Frame.localSlots 0 localItems)[index]? = some place := by
      rw [← hof.locals]
      exact hplace
    have hfp : stackPointer (a.above s.args) + UInt32.ofNat 0 = a.pointer s := UInt32.add_zero _
    obtain ⟨value, front, rest, hvalue, hsize, hlies, hset⟩ := lies_local hfill hfp hplace'
    refine ⟨value, _, rest, hvalue, hsize, hlies.below s.stack.flatten, fun v => ?_⟩
    show s.stack.flatten ++ (pushedWords (s.locals.set index v) ++ a.above s.args) = _
    rw [hset, List.append_assoc]

theorem Suits.store (h : Suits frame stack s)
    (hplace : (if isArg then frame.args else frame.locals)[index]? = some place) {v : Value}
    (hsize : place.item.size = v.bytes) : Suits frame stack (s.store isArg index v) := by
  have hitem : ((if isArg then frame.args else frame.locals).map FrameSlot.item)[index]? =
      some place.item := by
    rw [List.getElem?_map, hplace]
    rfl
  cases isArg with
  | true => exact ⟨h.stack, h.args.set hitem hsize, h.locals⟩
  | false => exact ⟨h.stack, h.args, h.locals.set hitem hsize⟩

end Slots

/-- How an instruction leads to a position: over the end of its template, or by the label of a target. -/
inductive Leads (ctx : EmitContext) (i : Instruction) : Exit → Nat → Prop
  | next (hflow : i.op.endsFlow = false) : Leads ctx i .next i.nextPosition
  | jump {targets : List Int} {position : Nat} (htargets : i.targets = .ok targets)
      (hmem : (position : Int) ∈ targets) : Leads ctx i (.goto (ctx.labelAt position)) position

/-- Control never falls through. -/
def Operation.endsFlow : Operation → Bool
  | .branch .always | .leave | .ret | .throw | .methodEnd => true
  | _ => false

theorem endsFlow_operation (op : Opcode) : op.endsFlow = op.operation.endsFlow := by cases op <;> rfl

section Leads

variable (ctx : EmitContext) {i : Instruction} {s s' : State}

variable {ctx} in
theorem Leads.of_operation {op : Operation} (hop : i.op.operation = op) (hflow : op.endsFlow = false) :
    Leads ctx i .next i.nextPosition :=
  .next (by rw [endsFlow_operation, hop, hflow])

theorem leads_of_goto {target : Int} {targets : List Int} {tail : List Value}
    (h : s.goto target tail = some (.goes s')) (htargets : i.targets = .ok targets) (hmem : target ∈ targets) :
    ∃ position, s' = { s with position, stack := tail } ∧
      Leads ctx i (.goto (ctx.labelAt target.toNat)) position := by
  unfold State.goto at h
  split at h
  · rename_i hnonneg
    obtain rfl := Outcome.goes.inj (Option.some.inj h)
    refine ⟨_, rfl, .jump htargets ?_⟩
    rwa [Int.toNat_of_nonneg hnonneg]
  · cases h

theorem leads_of_branch {taken : Bool} {target : Int} {tail : List Value}
    (h : s.branch i taken tail = some (.goes s')) (htarget : i.branchTarget = .ok target)
    (hflow : taken = false → i.op.endsFlow = false) :
    ∃ position, s' = { s with position, stack := tail } ∧
      Leads ctx i (branchExit taken (ctx.labelAt target.toNat)) position := by
  unfold State.branch at h
  rw [htarget] at h
  cases taken with
  | true => exact leads_of_goto ctx h (targets_of_branchTarget htarget) (List.mem_singleton_self _)
  | false =>
    obtain rfl := Outcome.goes.inj (Option.some.inj h)
    exact ⟨_, rfl, .next (hflow rfl)⟩

end Leads

section Mirrors

variable {I R M : Type} [TargetInstr I] [LabelUse I] [Semantics I R M]

/-- The template makes the words of the one state into those of the other. -/
structure Mirrors (backend : Backend I) (ctx : EmitContext) (i : Instruction) (e : Effect)
    (a : Activation) (stack' : OperandStack) (s s' : State) : Prop where
  suits : Suits ctx.frame stack' s'
  passes : ∃ x, Leads ctx i x s'.position ∧
    Passes backend ctx i e (a.pointer s) (a.words s) x (a.words s')

variable {backend : Backend I} {ctx : EmitContext} {i : Instruction} {e : Effect} {a : Activation}
  {stack stack' : OperandStack} {s s' : State}

/-- An instruction that works on the operand stack alone. -/
theorem mirrors_of_stack (hexchange : Exchange ctx.simEnv i stack e stack')
    (hsuits : Suits ctx.frame stack s) {front tail : List Value} (hstack : s.stack = front ++ tail)
    (hfront : front.length = e.popped.length) (results : List Value)
    (hresults : e.pushed.map StackItem.size = (results.map Value.bytes).reverse) {x : Exit} {position : Nat}
    (hleads : Leads ctx i x position)
    (hpasses : Passes backend ctx i e (a.pointer s) (front.flatten ++ a.words { s with stack := tail }) x
      (results.flatten ++ a.words { s with stack := tail })) :
    Mirrors backend ctx i e a stack' s { s with position, stack := results ++ tail } where
  suits := by
    have hfill := hsuits.stack
    rw [hstack] at hfill
    exact ⟨(hexchange.fill hfill hfront).2 results hresults, hsuits.args, hsuits.locals⟩
  passes := by
    have hwords := a.words_append s s.position front tail
    rw [← hstack] at hwords
    refine ⟨x, hleads, ?_⟩
    rw [a.words_append, show a.words s = _ from hwords]
    exact hpasses

theorem mirrors_of_trades (hexchange : Exchange ctx.simEnv i stack e stack')
    (hsuits : Suits ctx.frame stack s) {front tail : List Value} (hstack : s.stack = front ++ tail)
    (hfront : front.length = e.popped.length) (results : List Value)
    (hresults : e.pushed.map StackItem.size = (results.map Value.bytes).reverse) {x : Exit} {position : Nat}
    (hleads : Leads ctx i x position) (htrades : Trades backend ctx i e front.flatten x results.flatten) :
    Mirrors backend ctx i e a stack' s { s with position, stack := results ++ tail } :=
  mirrors_of_stack hexchange hsuits hstack hfront results hresults hleads (htrades.passes _ _)

/-- Values on top of the stack have the sizes that are popped. -/
theorem operands_of_sizes (hexchange : Exchange ctx.simEnv i stack e stack')
    (hsuits : Suits ctx.frame stack s) {popped pushed : List Nat} (hsizes : e.Sizes popped pushed)
    (front : List Value) {tail : List Value} (hstack : s.stack = front ++ tail)
    (hfront : front.length = popped.length) :
    popped = front.map Value.bytes ∧ front.length = e.popped.length := by
  have hlength : front.length = e.popped.length := by rw [hfront, ← hsizes.popped, List.length_map]
  have hfill := hsuits.stack
  rw [hstack] at hfill
  exact ⟨hsizes.popped.symm.trans (hexchange.fill hfill hlength).1, hlength⟩

theorem mirrors_of_push (hexchange : Exchange ctx.simEnv i stack e stack')
    (hsuits : Suits ctx.frame stack s) (hroom : s'.height + (a.words s).length ≤ stackCapacity + s.height) {v : Value}
    (heffect : e.Sizes [] [v.bytes])
    (hs' : s' = { s with position := i.nextPosition, stack := v :: s.stack })
    (hflow : i.op.operation.endsFlow = false)
    (hpasses : v.length + (a.words s).length ≤ stackCapacity →
      Passes backend ctx i e (a.pointer s) (a.words s) .next (v ++ a.words s)) :
    Mirrors backend ctx i e a stack' s s' := by
  subst hs'
  have hfront := (operands_of_sizes hexchange hsuits heffect [] rfl rfl).2
  refine mirrors_of_stack hexchange hsuits rfl hfront [v] heffect.pushed (.of_operation rfl hflow) ?_
  rw [List.flatten_singleton]
  refine hpasses ?_
  rw [State.height, State.height, List.flatten_cons, List.length_append] at hroom
  omega

/-- A target whose templates do what the operations of the fragment mean. -/
structure RunsFragment (backend : Backend I) : Prop where
  integers : ComputesIntegers backend
  moves : MovesValues backend

section Step

variable (hbackend : RunsFragment backend) (hsim : simulate ctx.simEnv i stack = .ok e stack')
  (hsuits : Suits ctx.frame stack s)

include hbackend hsim hsuits

theorem mirrors_nop (hop : i.op.operation = .nop)
    (hstep : Meaning.step .saturating i s = some (.goes s')) : Mirrors backend ctx i e a stack' s s' := by
  have hexchange := simulate_exchange hsim
  have hsizes := hexchange.sizes
  simp only [Meaning.step, hop] at hstep hsizes
  obtain rfl := Outcome.goes.inj (Option.some.inj hstep)
  have hfront := (operands_of_sizes hexchange hsuits hsizes [] rfl rfl).2
  exact mirrors_of_trades hexchange hsuits rfl hfront [] hsizes.pushed (.of_operation hop rfl)
    (hbackend.moves.nop hop)

theorem mirrors_binary {op : BinaryOp} (hop : i.op.operation = .binary op)
    (hstep : Meaning.step .saturating i s = some (.goes s')) : Mirrors backend ctx i e a stack' s s' := by
  have hexchange := simulate_exchange hsim
  have hsizes := hexchange.sizes
  simp only [Meaning.step, hop] at hstep hsizes
  split at hstep
  · rename_i b c tail hstack
    obtain ⟨result, hresult, hgoes⟩ := Option.bind_eq_some_iff.mp hstep
    obtain rfl := Outcome.goes.inj (Option.some.inj hgoes)
    obtain ⟨n, -, -, heffect⟩ := hsizes
    obtain ⟨hpopped, hfront⟩ := operands_of_sizes hexchange hsuits heffect [b, c] hstack rfl
    obtain ⟨hb, hc⟩ : n = b.bytes ∧ n = c.bytes := by simpa using hpopped
    refine mirrors_of_trades hexchange hsuits hstack hfront [result] ?_ (.of_operation hop rfl) ?_
    · rw [heffect.pushed, hc, bytes, ← length_binary hresult]
      rfl
    · have htrades : Trades backend ctx i e (b ++ c) .next result :=
        hbackend.integers.binary hop hresult ((heffect.operand 0 rfl).trans hb)
      simpa using htrades
  · cases hstep

theorem mirrors_unary {op : UnaryOp} (hop : i.op.operation = .unary op)
    (hstep : Meaning.step .saturating i s = some (.goes s')) : Mirrors backend ctx i e a stack' s s' := by
  have hexchange := simulate_exchange hsim
  have hsizes := hexchange.sizes
  simp only [Meaning.step, hop] at hstep hsizes
  split at hstep
  · rename_i b tail hstack
    obtain ⟨result, hresult, hgoes⟩ := Option.bind_eq_some_iff.mp hstep
    obtain rfl := Outcome.goes.inj (Option.some.inj hgoes)
    obtain ⟨n, -, heffect⟩ := hsizes
    obtain ⟨hpopped, hfront⟩ := operands_of_sizes hexchange hsuits heffect [b] hstack rfl
    have hb : n = b.bytes := by simpa using hpopped
    refine mirrors_of_trades hexchange hsuits hstack hfront [result] ?_ (.of_operation hop rfl) ?_
    · rw [heffect.pushed, hb, bytes, ← length_unary hresult]
      rfl
    · have htrades : Trades backend ctx i e b .next result :=
        hbackend.integers.unary hop hresult ((heffect.operand 0 rfl).trans hb)
      simpa using htrades
  · cases hstep

theorem mirrors_shift {op : ShiftOp} (hop : i.op.operation = .shift op)
    (hstep : Meaning.step .saturating i s = some (.goes s')) : Mirrors backend ctx i e a stack' s s' := by
  have hexchange := simulate_exchange hsim
  have hsizes := hexchange.sizes
  simp only [Meaning.step, hop] at hstep hsizes
  split at hstep
  · rename_i count b tail hstack
    obtain ⟨result, hresult, hgoes⟩ := Option.bind_eq_some_iff.mp hstep
    obtain rfl := Outcome.goes.inj (Option.some.inj hgoes)
    obtain ⟨n, k, -, -, heffect⟩ := hsizes
    obtain ⟨hpopped, hfront⟩ := operands_of_sizes hexchange hsuits heffect [count, b] hstack rfl
    obtain ⟨hcount, hb⟩ : k = count.bytes ∧ n = b.bytes := by simpa using hpopped
    refine mirrors_of_trades hexchange hsuits hstack hfront [result] ?_ (.of_operation hop rfl) ?_
    · rw [heffect.pushed, hb, bytes, ← length_shift hresult]
      rfl
    · have htrades : Trades backend ctx i e (count ++ b) .next result :=
        hbackend.integers.shift hop hresult ((heffect.operand 0 rfl).trans hcount)
          ((heffect.operand 1 rfl).trans hb)
      simpa using htrades
  · cases hstep

theorem mirrors_compare {op : CompareOp} (hop : i.op.operation = .compare op)
    (hstep : Meaning.step .saturating i s = some (.goes s')) : Mirrors backend ctx i e a stack' s s' := by
  have hexchange := simulate_exchange hsim
  have hsizes := hexchange.sizes
  simp only [Meaning.step, hop] at hstep hsizes
  split at hstep
  · rename_i b c tail hstack
    obtain rfl := Outcome.goes.inj (Option.some.inj hstep)
    obtain ⟨n, hn, heffect⟩ := hsizes
    obtain ⟨hpopped, hfront⟩ := operands_of_sizes hexchange hsuits heffect [b, c] hstack rfl
    obtain ⟨hb, hc⟩ : n = b.bytes ∧ n = c.bytes := by simpa using hpopped
    have hlength : c.length = b.length := by
      unfold bytes at hb hc
      omega
    refine mirrors_of_trades hexchange hsuits hstack hfront [[if compare op c b then 1 else 0]]
      heffect.pushed (.of_operation hop rfl) ?_
    have htrades : Trades backend ctx i e (b ++ c) .next [if compare op c b then 1 else 0] :=
      hbackend.integers.compare hop (isInteger_of_bytes (hb ▸ hn)) hlength ((heffect.operand 0 rfl).trans hb)
    simpa using htrades
  · cases hstep

theorem mirrors_pop (hop : i.op.operation = .pop) (hsettled : stack.Only StackItem.Settled)
    (hstep : Meaning.step .saturating i s = some (.goes s')) : Mirrors backend ctx i e a stack' s s' := by
  have hexchange := simulate_exchange hsim
  have hsizes := hexchange.sizes
  simp only [Meaning.step, hop] at hstep hsizes
  split at hstep
  · rename_i v tail hstack
    obtain rfl := Outcome.goes.inj (Option.some.inj hstep)
    obtain ⟨top, rest, rfl, hpopped, hpushed⟩ := hsizes
    have heffect : e.Sizes [top.size] [] := ⟨by rw [hpopped]; rfl, by rw [hpushed]; rfl⟩
    obtain ⟨hsize, hfront⟩ := operands_of_sizes hexchange hsuits heffect [v] hstack rfl
    have hv : top.size = v.bytes := by simpa using hsize
    have hoperand : e.operand 0 = top := by
      rw [Effect.operand, hpopped]
      rfl
    refine mirrors_of_trades hexchange hsuits hstack hfront [] heffect.pushed (.of_operation hop rfl) ?_
    have htrades : Trades backend ctx i e v .next [] := by
      refine hbackend.moves.pop hop (by rw [hoperand, hv, bytes]) ?_
      rw [hoperand]
      exact hsettled top List.mem_cons_self
    simpa using htrades
  · cases hstep

theorem mirrors_branch {condition : BranchCondition} (hop : i.op.operation = .branch condition)
    (hcount : condition.operandCount = 2) (hemitted : (backend.emit ctx i e).failure = none)
    (hstep : Meaning.step .saturating i s = some (.goes s')) : Mirrors backend ctx i e a stack' s s' := by
  have hexchange := simulate_exchange hsim
  have hsizes := hexchange.sizes
  obtain ⟨target, htarget, hlabel⟩ := hbackend.moves.target (.inl ⟨condition, hop⟩) hemitted
  rw [hop] at hsizes
  obtain ⟨n, hn, heffect⟩ : ∃ n, IntegerSize n ∧ e.Sizes [n, n] [] := by
    simpa only [Exchanges, hcount] using hsizes
  obtain ⟨b, c, tail, hstack, hbranch⟩ : ∃ b c tail, s.stack = b :: c :: tail ∧
      s.branch i (branches condition c b) tail = some (.goes s') := by
    cases condition <;> first | cases hcount; done | skip
    all_goals
      simp only [Meaning.step, hop] at hstep
      split at hstep
      · exact ⟨_, _, _, ‹_›, hstep⟩
      · cases hstep
  obtain ⟨hpopped, hfront⟩ := operands_of_sizes hexchange hsuits heffect [b, c] hstack rfl
  obtain ⟨hb, hc⟩ : n = b.bytes ∧ n = c.bytes := by simpa using hpopped
  have hlength : c.length = b.length := by
    unfold bytes at hb hc
    omega
  obtain ⟨position, rfl, hleads⟩ := leads_of_branch ctx hbranch htarget fun _ => by
    rw [endsFlow_operation, hop]
    cases condition <;> first | rfl | cases hcount
  refine mirrors_of_trades hexchange hsuits hstack hfront [] heffect.pushed hleads ?_
  have htrades := hbackend.integers.branch hop hcount htarget hlabel (isInteger_of_bytes (hb ▸ hn)) hlength
    ((heffect.operand 0 rfl).trans hb)
  simpa using htrades

/-- A branch on one operand, taken when it is zero or when it is not. -/
theorem mirrors_branchZero (onZero : Bool)
    (hop : i.op.operation = .branch (if onZero then .isFalse else .isTrue))
    (hemitted : (backend.emit ctx i e).failure = none)
    (hstep : Meaning.step .saturating i s = some (.goes s')) : Mirrors backend ctx i e a stack' s s' := by
  have hexchange := simulate_exchange hsim
  have hsizes := hexchange.sizes
  obtain ⟨target, htarget, hlabel⟩ := hbackend.moves.target (.inl ⟨_, hop⟩) hemitted
  rw [hop] at hsizes
  obtain ⟨n, hn, heffect⟩ : ∃ n, IntegerSize n ∧ e.Sizes [n] [] := by
    cases onZero <;> exact hsizes
  obtain ⟨b, tail, hstack, hbranch⟩ : ∃ b tail, s.stack = b :: tail ∧
      s.branch i ((b.toNat == 0) == onZero) tail = some (.goes s') := by
    cases onZero
    all_goals
      simp only [Meaning.step, hop, ↓reduceIte, Bool.false_eq_true] at hstep
      split at hstep
      · refine ⟨_, _, ‹_›, ?_⟩
        rw [← hstep]
        congr 1
        rw [Bool.eq_iff_iff]
        simp
      · cases hstep
  obtain ⟨hpopped, hfront⟩ := operands_of_sizes hexchange hsuits heffect [b] hstack rfl
  have hb : n = b.bytes := by simpa using hpopped
  obtain ⟨position, rfl, hleads⟩ := leads_of_branch ctx hbranch htarget fun _ => by
    rw [endsFlow_operation, hop]
    cases onZero <;> rfl
  refine mirrors_of_trades hexchange hsuits hstack hfront [] heffect.pushed hleads ?_
  have htrades := hbackend.integers.branchZero onZero hop htarget hlabel (isInteger_of_bytes (hb ▸ hn))
    ((heffect.operand 0 rfl).trans hb)
  simpa using htrades

theorem mirrors_jump (hop : i.op.operation = .branch .always)
    (hemitted : (backend.emit ctx i e).failure = none)
    (hstep : Meaning.step .saturating i s = some (.goes s')) : Mirrors backend ctx i e a stack' s s' := by
  have hexchange := simulate_exchange hsim
  have hsizes := hexchange.sizes
  obtain ⟨target, htarget, hlabel⟩ := hbackend.moves.target (.inl ⟨_, hop⟩) hemitted
  simp only [Meaning.step, hop] at hstep hsizes
  have heffect : e.Sizes [] [] := hsizes
  have hfront := (operands_of_sizes hexchange hsuits heffect [] rfl rfl).2
  obtain ⟨position, rfl, hleads⟩ := leads_of_branch ctx hstep htarget fun h => by cases h
  exact mirrors_of_trades hexchange hsuits rfl hfront [] heffect.pushed hleads
    (hbackend.moves.jump hop htarget hlabel)

theorem mirrors_leave (hop : i.op.operation = .leave) (hemitted : (backend.emit ctx i e).failure = none)
    (hheld : s.stack.flatten.length ≤ stackCapacity)
    (hstep : Meaning.step .saturating i s = some (.goes s')) : Mirrors backend ctx i e a stack' s s' := by
  have hexchange := simulate_exchange hsim
  have hsizes := hexchange.sizes
  obtain ⟨target, htarget, hlabel⟩ := hbackend.moves.target (.inr hop) hemitted
  simp only [Meaning.step, hop, htarget] at hstep hsizes
  obtain ⟨hpopped, hpushed⟩ := hsizes
  obtain ⟨position, rfl, hleads⟩ := leads_of_goto ctx hstep (targets_of_branchTarget htarget)
    (List.mem_singleton_self _)
  have hfront : s.stack.length = e.popped.length := by
    rw [hpopped]
    exact hsuits.stack.length_eq.symm
  have hbytes : e.poppedBytes = 4 * s.stack.flatten.length := by
    rw [Effect.poppedBytes, hpopped, hsuits.countBytes_eq hheld]
  exact mirrors_of_trades hexchange hsuits (List.append_nil _).symm hfront [] (by rw [hpushed]; rfl) hleads
    (hbackend.moves.leave hop htarget hlabel hbytes)

theorem mirrors_switch (hop : i.op.operation = .switch) (hemitted : (backend.emit ctx i e).failure = none)
    (hstep : Meaning.step .saturating i s = some (.goes s')) : Mirrors backend ctx i e a stack' s s' := by
  have hexchange := simulate_exchange hsim
  have hsizes := hexchange.sizes
  simp only [Meaning.step, hop] at hstep hsizes
  split at hstep
  · rename_i selector tail hstack
    obtain ⟨targets, htargets, hgoes⟩ := Option.bind_eq_some_iff.mp hstep
    rw [toOption_eq_some] at htargets
    obtain ⟨hpopped, hfront⟩ := operands_of_sizes hexchange hsuits hsizes [selector] hstack rfl
    obtain ⟨w, rfl⟩ : ∃ w, selector = [w] := by
      refine List.length_eq_one_iff.mp ?_
      have hbytes : 4 = selector.bytes := by simpa using hpopped
      unfold bytes at hbytes
      omega
    rw [toNat_word] at hgoes
    obtain ⟨position, rfl, hleads⟩ : ∃ position, s' = { s with position, stack := tail } ∧
        Leads ctx i (switchExit ctx targets w.toNat) position := by
      unfold switchExit
      cases hcase : targets[w.toNat]? with
      | some target =>
        rw [hcase] at hgoes
        exact leads_of_goto ctx hgoes (targets_of_switchTargets hop htargets) (List.mem_of_getElem? hcase)
      | none =>
        rw [hcase] at hgoes
        obtain rfl := Outcome.goes.inj (Option.some.inj hgoes)
        exact ⟨_, rfl, .of_operation hop rfl⟩
    exact mirrors_of_trades hexchange hsuits hstack hfront [] hsizes.pushed hleads
      (hbackend.moves.switch hop htargets hemitted)
  · cases hstep

section Room

variable (hroom : s'.height + (a.words s).length ≤ stackCapacity + s.height)

include hroom

theorem mirrors_loadConst (hop : i.op.operation = .loadConst)
    (hstep : Meaning.step .saturating i s = some (.goes s')) : Mirrors backend ctx i e a stack' s s' := by
  have hsizes := (simulate_exchange hsim).sizes
  simp only [Meaning.step, hop] at hstep hsizes
  obtain ⟨value, hvalue, hgoes⟩ := Option.bind_eq_some_iff.mp hstep
  have hbytes : (if i.op = .ldcI8 then 8 else 4) = value.bytes := by
    unfold constant? at hvalue
    split at hvalue
    · obtain ⟨n, -, rfl⟩ := Option.map_eq_some_iff.mp hvalue
      rw [if_pos ‹_›, bytes, length_ofInt]
    · obtain ⟨n, -, rfl⟩ := Option.map_eq_some_iff.mp hvalue
      rw [if_neg ‹_›]
      rfl
  have heffect : e.Sizes [] [value.bytes] := hbytes ▸ hsizes
  exact mirrors_of_push (simulate_exchange hsim) hsuits hroom heffect (Outcome.goes.inj (Option.some.inj hgoes)).symm
    (by rw [hop]; rfl) (hbackend.moves.constant hop hvalue)

theorem mirrors_loadNull (hop : i.op.operation = .loadNull) (hpointer : ctx.options.pointerSize = 4)
    (hstep : Meaning.step .saturating i s = some (.goes s')) : Mirrors backend ctx i e a stack' s s' := by
  have hsizes := (simulate_exchange hsim).sizes
  simp only [Meaning.step, hop] at hstep hsizes
  have heffect : e.Sizes [] [Value.bytes [0]] := by
    rw [show Value.bytes [0] = ctx.options.pointerSize from hpointer.symm]
    exact hsizes
  refine mirrors_of_push (simulate_exchange hsim) hsuits hroom heffect (Outcome.goes.inj (Option.some.inj hstep)).symm
    (by rw [hop]; rfl) fun hfits => ?_
  exact hbackend.moves.null hop (by rw [List.length_singleton] at hfits; omega)

theorem mirrors_dup (hop : i.op.operation = .dup) (hemitted : (backend.emit ctx i e).failure = none)
    (hstep : Meaning.step .saturating i s = some (.goes s')) : Mirrors backend ctx i e a stack' s s' := by
  have hsizes := (simulate_exchange hsim).sizes
  simp only [Meaning.step, hop] at hstep hsizes
  split at hstep
  · rename_i v tail hstack
    obtain ⟨top, rest, rfl, hpopped, hpushed⟩ := hsizes
    have hfill := hsuits.stack
    rw [hstack] at hfill
    have htop : top.size = v.bytes := (List.forall₂_cons.mp hfill).1
    have heffect : e.Sizes [] [v.bytes] := ⟨by rw [hpopped]; rfl, by rw [hpushed, ← htop]; rfl⟩
    have hresult : e.result.size = 4 * v.length := by
      rw [Effect.result, hpushed]
      exact htop
    have hs' := (Outcome.goes.inj (Option.some.inj hstep)).symm
    rw [← hstack] at hs'
    refine mirrors_of_push (simulate_exchange hsim) hsuits hroom heffect hs' (by rw [hop]; rfl) fun hfits => ?_
    have hwords : a.words s = v ++ a.words { s with stack := tail } := by
      have happend := a.words_append s s.position [v] tail
      rwa [List.singleton_append, ← hstack, List.flatten_singleton] at happend
    rw [hwords] at hfits ⊢
    exact hbackend.moves.dup hop hemitted hresult hfits
  · cases hstep

theorem mirrors_convert {target : ConvTarget} (hop : i.op.operation = .convert (some target))
    (hpointer : ctx.options.pointerSize = 4)
    (hstep : Meaning.step .saturating i s = some (.goes s')) : Mirrors backend ctx i e a stack' s s' := by
  have hexchange := simulate_exchange hsim
  have hsizes := hexchange.sizes
  simp only [Meaning.step, hop] at hstep hsizes
  split at hstep
  · rename_i b tail hstack
    obtain ⟨result, hresult, hgoes⟩ := Option.bind_eq_some_iff.mp hstep
    obtain rfl := Outcome.goes.inj (Option.some.inj hgoes)
    obtain ⟨n, -, heffect⟩ := hsizes
    obtain ⟨hpopped, hfront⟩ := operands_of_sizes hexchange hsuits heffect [b] hstack rfl
    have hb : n = b.bytes := by simpa using hpopped
    have hpushed : (if target.valueSize ctx.simEnv.pointerSize = 8 then 8 else 4) = result.bytes := by
      rw [show ctx.simEnv.pointerSize = 4 from hpointer, bytes, length_convert hresult]
    refine mirrors_of_stack hexchange hsuits hstack hfront [result] ?_ (.of_operation hop rfl) ?_
    · rw [heffect.pushed, hpushed]
      rfl
    · rw [List.flatten_singleton, List.flatten_singleton]
      refine hbackend.moves.convert hop hpointer hresult ((heffect.operand 0 rfl).trans hb) ?_
      have hwords := a.words_append s s.position [b] tail
      rw [List.singleton_append, ← hstack, List.flatten_singleton] at hwords
      rw [show a.words s = _ from hwords, State.height, State.height, hstack, List.flatten_cons,
        List.flatten_cons, List.length_append, List.length_append, List.length_append] at hroom
      omega
  · cases hstep

end Room

section Slots

variable {items localItems : List StackItem} (hof : FrameOf ctx.frame items localItems)
  (hslot : 4 * a.slot.length = ctx.frame.returnBytes) (hemitted : (backend.emit ctx i e).failure = none)

include hof hslot hemitted

theorem mirrors_load (isArg : Bool) (hop : i.op.operation = if isArg then .loadArg else .loadLocal)
    (hroom : s'.height + (a.words s).length ≤ stackCapacity + s.height)
    (hstep : Meaning.step .saturating i s = some (.goes s')) : Mirrors backend ctx i e a stack' s s' := by
  have hexchange := simulate_exchange hsim
  have hsizes := hexchange.sizes
  obtain ⟨place, ⟨index, hindex, hplace⟩, heffect⟩ : ∃ place,
      SelectsSlot (if isArg then ctx.frame.args else ctx.frame.locals) i place ∧
        e.Sizes [] [place.item.size] := by
    rw [hop] at hsizes
    cases isArg <;> exact hsizes
  obtain ⟨value, front, rest, hvalue, hsize, hlies, -⟩ := hsuits.lies hof hslot hplace
  have hs' : s' = { s with position := i.nextPosition, stack := value :: s.stack } := by
    cases isArg
    all_goals
      simp only [Meaning.step, hop, ↓reduceIte, Bool.false_eq_true, hindex, Except.toOption] at hstep
      obtain ⟨_, hindex', hload⟩ := Option.bind_eq_some_iff.mp hstep
      obtain rfl := Option.some.inj hindex'
      obtain ⟨v, hv, hgoes⟩ := Option.bind_eq_some_iff.mp hload
      obtain rfl := Option.some.inj (hvalue.symm.trans hv)
      exact (Outcome.goes.inj (Option.some.inj hgoes)).symm
  have hflow : i.op.operation.endsFlow = false := by
    rw [hop]
    cases isArg <;> rfl
  rw [hsize] at heffect
  exact mirrors_of_push hexchange hsuits hroom heffect hs' hflow
    (hbackend.moves.load isArg hop hemitted (slot_of_selects rfl ⟨index, hindex, hplace⟩) hsize hlies)

theorem mirrors_store (isArg : Bool) (hop : i.op.operation = if isArg then .storeArg else .storeLocal)
    (hstep : Meaning.step .saturating i s = some (.goes s')) : Mirrors backend ctx i e a stack' s s' := by
  have hexchange := simulate_exchange hsim
  have hsizes := hexchange.sizes
  obtain ⟨place, ⟨index, hindex, hplace⟩, heffect⟩ : ∃ place,
      SelectsSlot (if isArg then ctx.frame.args else ctx.frame.locals) i place ∧
        e.Sizes [place.item.size] [] := by
    rw [hop] at hsizes
    cases isArg <;> exact hsizes
  obtain ⟨v, tail, hstack, rfl⟩ : ∃ v tail, s.stack = v :: tail ∧
      s' = { s with position := i.nextPosition, stack := tail }.store isArg index v := by
    cases isArg
    all_goals
      simp only [Meaning.step, hop, ↓reduceIte, Bool.false_eq_true, hindex, Except.toOption] at hstep
      split at hstep
      · exact ⟨_, _, ‹_›, (Outcome.goes.inj (Option.some.inj hstep)).symm⟩
      · cases hstep
  obtain ⟨hpopped, hfront⟩ := operands_of_sizes hexchange hsuits heffect [v] hstack rfl
  have hv : place.item.size = v.bytes := by simpa using hpopped
  -- below the value that is popped lies the rest of the state
  have hfill : Fill stack ([v] ++ tail) := by
    rw [List.singleton_append, ← hstack]
    exact hsuits.stack
  have hrest : Suits ctx.frame stack' { s with position := i.nextPosition, stack := tail } :=
    ⟨(hexchange.fill hfill hfront).2 [] heffect.pushed, hsuits.args, hsuits.locals⟩
  obtain ⟨old, front, rest, -, hsize, hlies, hset⟩ := hrest.lies hof hslot hplace
  have hwords := a.words_append s s.position [v] tail
  rw [List.singleton_append, ← hstack, List.flatten_singleton] at hwords
  have hposition : Leads ctx i .next i.nextPosition := by
    refine .of_operation hop ?_
    cases isArg <;> rfl
  have hlength : v.length = old.length := by
    unfold bytes at hv hsize
    omega
  refine ⟨hrest.store hplace hv, .next, ?_, ?_⟩
  · cases isArg <;> exact hposition
  · rw [hset v, show a.words s = _ from hwords]
    exact hbackend.moves.store isArg hop hemitted (slot_of_selects rfl ⟨index, hindex, hplace⟩) hv hlength hlies

/-- A step of the meaning is a run of the template. -/
theorem mirrors_of_step (hpointer : ctx.options.pointerSize = 4)
    (hheld : s.stack.flatten.length ≤ stackCapacity) (hsettled : stack.Only StackItem.Settled)
    (hroom : s'.height + (a.words s).length ≤ stackCapacity + s.height)
    (hstep : Meaning.step .saturating i s = some (.goes s')) : Mirrors backend ctx i e a stack' s s' := by
  cases hop : i.op.operation with
  | nop => exact mirrors_nop hbackend hsim hsuits hop hstep
  | loadArg => exact mirrors_load hbackend hsim hsuits hof hslot hemitted true hop hroom hstep
  | loadLocal => exact mirrors_load hbackend hsim hsuits hof hslot hemitted false hop hroom hstep
  | storeArg => exact mirrors_store hbackend hsim hsuits hof hslot hemitted true hop hstep
  | storeLocal => exact mirrors_store hbackend hsim hsuits hof hslot hemitted false hop hstep
  | loadConst => exact mirrors_loadConst hbackend hsim hsuits hroom hop hstep
  | loadNull => exact mirrors_loadNull hbackend hsim hsuits hroom hop hpointer hstep
  | dup => exact mirrors_dup hbackend hsim hsuits hroom hop hemitted hstep
  | pop => exact mirrors_pop hbackend hsim hsuits hop hsettled hstep
  | binary op => exact mirrors_binary hbackend hsim hsuits hop hstep
  | unary op => exact mirrors_unary hbackend hsim hsuits hop hstep
  | shift op => exact mirrors_shift hbackend hsim hsuits hop hstep
  | compare op => exact mirrors_compare hbackend hsim hsuits hop hstep
  | convert target =>
    cases target with
    | none =>
      simp only [Meaning.step, hop] at hstep
      cases hstep
    | some target => exact mirrors_convert hbackend hsim hsuits hroom hop hpointer hstep
  | branch condition =>
    cases condition with
    | always => exact mirrors_jump hbackend hsim hsuits hop hemitted hstep
    | isTrue => exact mirrors_branchZero hbackend hsim hsuits false hop hemitted hstep
    | isFalse => exact mirrors_branchZero hbackend hsim hsuits true hop hemitted hstep
    | eq | neUn | ge | gt | le | lt | geUn | gtUn | leUn | ltUn =>
      exact mirrors_branch hbackend hsim hsuits hop rfl hemitted hstep
  | switch => exact mirrors_switch hbackend hsim hsuits hop hemitted hstep
  | leave => exact mirrors_leave hbackend hsim hsuits hop hemitted hheld hstep
  | ret =>
    -- a return goes nowhere
    simp only [Meaning.step, hop] at hstep
    split at hstep
    · cases hstep
    · cases hstep
    · cases hstep
  | _ =>
    simp only [Meaning.step, hop] at hstep
    cases hstep

end Slots

end Step

end Mirrors

end Stencil
