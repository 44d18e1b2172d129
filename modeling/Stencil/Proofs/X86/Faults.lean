import Stencil.Proofs.Machine.Faults
import Stencil.Proofs.X86.Labels
import Stencil.X86.Machine

/-!
# Faults of the x86 machine

Of all that an instruction does, only going to a label can fault for want of one, only a symbol that it
mentions can be unknown, and only a call can end with an exception.
-/

namespace Stencil.X86.Machine

section Faults

variable {E : Fault → Machine → Prop}

/-! ## Registers, memory and operands -/

theorem get_faults (r : Reg) : OnlyFaults E (get r) := .of_ok fun _ => ⟨_, _, rfl⟩

theorem put_faults (r : Reg) (value : UInt32) : OnlyFaults E (put r value) := .of_ok fun _ => ⟨_, _, rfl⟩

theorem setFlags_faults (f : Flags → Flags) : OnlyFaults E (setFlags f) := .of_ok fun _ => ⟨_, _, rfl⟩

theorem goto_faults (pc : UInt32) : OnlyFaults E (goto pc) := .of_ok fun _ => ⟨_, _, rfl⟩

theorem onStore_faults {P : Fault → Prop} (hE : ∀ {fault : Fault} {m : Machine}, P fault → E fault m) {α : Type}
    {action : StoreM α} (h : OnlyFaults (fun fault _ => P fault) action) : OnlyFaults E (onStore action) := by
  intro m fault m' heq
  unfold onStore at heq
  dsimp only at heq
  split at heq
  · cases heq
  · rename_i fault' store hfault
    cases heq
    exact hE (h _ _ _ hfault)

section Mechanical

variable (hmechanical : ∀ {fault : Fault} {m : Machine}, fault.Mechanical → E fault m)

include hmechanical

theorem push_faults (value : UInt32) : OnlyFaults E (push value) :=
  .bind (get_faults _) fun _ =>
    .bind (onStore_faults hmechanical (Store.write_faults _ _ _)) fun _ => put_faults _ _

theorem pop_faults : OnlyFaults E pop :=
  .bind (get_faults _) fun _ =>
    .bind (onStore_faults hmechanical (Store.read_faults _ _)) fun _ =>
      .bind (put_faults _ _) fun _ => .pure _

variable (p : Program Instr)

omit hmechanical in
theorem resolve_faults {symbol : Symbol} (h : AllowsSymbol p E symbol) : OnlyFaults E (lift (p.resolve symbol)) := by
  rcases h with ⟨address, h⟩ | h
  · rw [h]
    exact .pure _
  · unfold Program.resolve
    split
    · exact .pure _
    · exact .throw h

theorem indexOf_faults (address : UInt32) : OnlyFaults E (lift (p.indexOf address)) := by
  unfold Program.indexOf
  dsimp only
  split
  · exact .throw fun _ => hmechanical trivial
  · exact .pure _

omit hmechanical in
theorem labelAddress_faults {l : Label} (h : AllowsLabel p E l) : OnlyFaults E (lift (p.labelAddress l)) := by
  rcases h with ⟨address, h⟩ | h
  · rw [h]
    exact .pure _
  · unfold Program.labelAddress
    split
    · exact .pure _
    · exact .throw h

omit hmechanical in
theorem address_faults {mem : Mem} (h : ∀ s, mem.symbol = some s → AllowsSymbol p E s) :
    OnlyFaults E (address p mem) := by
  obtain ⟨base, symbol, disp⟩ := mem
  cases base with
  | none =>
    cases symbol with
    | none => exact .bind (.pure _) fun _ => .bind (.pure _) fun _ => .pure _
    | some s =>
      exact .bind (.pure _) fun _ => .bind (resolve_faults p (h s rfl)) fun _ => .pure _
  | some r =>
    cases symbol with
    | none => exact .bind (get_faults r) fun _ => .bind (.pure _) fun _ => .pure _
    | some s =>
      exact .bind (get_faults r) fun _ => .bind (resolve_faults p (h s rfl)) fun _ => .pure _

theorem read_faults {o : Operand} (h : ∀ s ∈ o.symbol?.toList, AllowsSymbol p E s) : OnlyFaults E (read p o) := by
  cases o with
  | reg r => exact get_faults r
  | part r width => exact .bind (get_faults r) fun _ => .pure _
  | imm value => exact .pure _
  | mem width m =>
    exact .bind (address_faults p fun s hs => h s (Option.mem_toList.mpr hs)) fun _ =>
      onStore_faults hmechanical (Store.read_faults _ _)
  | addr symbol => exact resolve_faults p (h symbol (Option.mem_toList.mpr rfl))

theorem write_faults (value : UInt32) {o : Operand} (h : ∀ s ∈ o.symbol?.toList, AllowsSymbol p E s) :
    OnlyFaults E (write p value o) := by
  cases o with
  | reg r => exact put_faults r value
  | part r width => exact .bind (get_faults r) fun _ => put_faults _ _
  | mem width m =>
    exact .bind (address_faults p fun s hs => h s (Option.mem_toList.mpr hs)) fun _ =>
      onStore_faults hmechanical (Store.write_faults _ _ _)
  | imm _ | addr _ =>
    intro m fault m' heq
    cases heq
    exact hmechanical trivial

omit hmechanical in
theorem targetAddress_faults {target : Target}
    (hlabel : ∀ l, target = .label l → AllowsLabel p E l)
    (hsymbol : ∀ s, target = .symbol s → AllowsSymbol p E s) :
    OnlyFaults E (targetAddress p target) := by
  cases target with
  | label l => exact labelAddress_faults p (hlabel l rfl)
  | symbol s => exact resolve_faults p (hsymbol s rfl)
  | reg r => exact get_faults r

omit hmechanical in
theorem shiftCount_faults (count : ShiftCount) : OnlyFaults E (shiftCount count) := by
  cases count with
  | cl => exact .bind (get_faults _) fun _ => .pure _
  | imm n => exact .pure _

/-! ## Instructions -/

omit hmechanical in
theorem imul_faults (dst : Reg) (lhs rhs : UInt32) : OnlyFaults E (imul dst lhs rhs) :=
  .bind (setFlags_faults _) fun _ => put_faults _ _

omit hmechanical in
theorem accumulator_faults : OnlyFaults E accumulator :=
  .bind (get_faults _) fun _ => .bind (get_faults _) fun _ => .pure _

theorem divide_faults (divisor : UInt32) : OnlyFaults E (divide divisor) := by
  have hput := fun q r => OnlyFaults.bind (put_faults (E := E) .eax q) fun _ => put_faults .edx r
  refine .bind accumulator_faults fun _ => .ite ?_ (hput _ _)
  exact .bind (.throw fun _ => hmechanical trivial) fun _ => hput _ _

theorem divideSigned_faults (divisor : UInt32) : OnlyFaults E (divideSigned divisor) := by
  have hput := fun q r => OnlyFaults.bind (put_faults (E := E) .eax q) fun _ => put_faults .edx r
  refine .bind accumulator_faults fun _ => .ite ?_ (hput _ _)
  exact .bind (.throw fun _ => hmechanical trivial) fun _ => hput _ _

theorem shift_faults (kind : ShiftKind) {dst : Operand} (count : ShiftCount)
    (h : ∀ s ∈ dst.symbol?.toList, AllowsSymbol p E s) : OnlyFaults E (shift p kind dst count) := by
  refine .bind (shiftCount_faults count) fun _ => .ite ?_ (.pure _)
  exact .bind (read_faults hmechanical p h) fun _ => .bind (setFlags_faults _) fun _ =>
    write_faults hmechanical p _ h

theorem shiftDouble_faults (left : Bool) {dst : Operand} (src : Reg) (count : ShiftCount)
    (h : ∀ s ∈ dst.symbol?.toList, AllowsSymbol p E s) : OnlyFaults E (shiftDouble p left dst src count) := by
  refine .bind (shiftCount_faults count) fun _ => .ite ?_ (.pure _)
  exact .bind (read_faults hmechanical p h) fun _ => .bind (get_faults src) fun _ =>
    write_faults hmechanical p _ h

theorem call_faults (hplain : ∀ {fault : Fault} {m : Machine}, fault.Plain → E fault m) {site next : UInt32}
    {target : Target} (hlabel : ∀ l, target = .label l → AllowsLabel p E l)
    (hsymbol : ∀ s, target = .symbol s → AllowsSymbol p E s) :
    OnlyFaults E (call p site next target) := by
  refine .bind (targetAddress_faults p hlabel hsymbol) fun destination => ?_
  split
  · refine .bind (get_faults _) fun _ =>
      .bind (onStore_faults hplain (p.runIntrinsic_faults _ _ _)) fun result => ?_
    split
    · exact put_faults _ _
    · exact .pure _
  · exact .bind (push_faults hmechanical _) fun _ => goto_faults _

omit hmechanical in
/-- Only calls run intrinsics. -/
theorem execute_faults {site : UInt32} {instr : Instr} (h : AllowsInstr p E instr)
    (hplain : ∀ target, instr = .call target → ∀ {fault : Fault} {m : Machine}, fault.Plain → E fault m) :
    OnlyFaults E (execute p site instr) := by
  obtain ⟨hmechanical, hlabel, hsymbol⟩ := h
  have hread : ∀ {o : Operand}, (∀ s ∈ o.symbol?.toList, AllowsSymbol p E s) → OnlyFaults E (read p o) :=
    read_faults hmechanical p
  have hwrite : ∀ value {o : Operand}, (∀ s ∈ o.symbol?.toList, AllowsSymbol p E s) →
      OnlyFaults E (write p value o) := write_faults hmechanical p
  cases instr with
  | label l => exact .pure _
  | nop => exact .pure _
  | mov dst src =>
    exact .bind (hread fun s hs => hsymbol (List.mem_append_right _ hs)) fun _ =>
      hwrite _ fun s hs => hsymbol (List.mem_append_left _ hs)
  | movzx dst src => exact .bind (hread fun s => hsymbol) fun _ => put_faults _ _
  | movsx dst src => exact .bind (hread fun s => hsymbol) fun _ => put_faults _ _
  | lea dst src =>
    exact .bind (address_faults p fun s hs => hsymbol (Option.mem_toList.mpr hs)) fun _ => put_faults _ _
  | push src => exact .bind (hread fun s => hsymbol) fun _ => push_faults hmechanical _
  | pop dst => exact .bind (pop_faults hmechanical) fun _ => hwrite _ fun s => hsymbol
  | alu op dst src =>
    have hdst : ∀ s ∈ dst.symbol?.toList, AllowsSymbol p E s := fun s hs =>
      hsymbol (List.mem_append_left _ hs)
    refine .bind (hread hdst) fun _ => .bind (hread fun s hs => hsymbol (List.mem_append_right _ hs))
      fun _ => .bind .get fun _ => ?_
    exact .bind (setFlags_faults _) fun _ => .ite (hwrite _ hdst) (.pure _)
  | test dst src =>
    exact .bind (hread fun s hs => hsymbol (List.mem_append_left _ hs)) fun _ =>
      .bind (hread fun s hs => hsymbol (List.mem_append_right _ hs)) fun _ => setFlags_faults _
  | neg dst =>
    exact .bind (hread fun s => hsymbol) fun _ => .bind (setFlags_faults _) fun _ =>
      hwrite _ fun s => hsymbol
  | not dst => exact .bind (hread fun s => hsymbol) fun _ => hwrite _ fun s => hsymbol
  | mul src =>
    exact .bind (get_faults _) fun _ => .bind (hread fun s => hsymbol) fun _ =>
      .bind (put_faults _ _) fun _ => .bind (put_faults _ _) fun _ => setFlags_faults _
  | imul dst src =>
    exact .bind (get_faults _) fun _ => .bind (hread fun s => hsymbol) fun _ => imul_faults _ _ _
  | imulImm dst src imm => exact .bind (hread fun s => hsymbol) fun _ => imul_faults _ _ _
  | div src => exact .bind (hread fun s => hsymbol) fun _ => divide_faults hmechanical _
  | idiv src => exact .bind (hread fun s => hsymbol) fun _ => divideSigned_faults hmechanical _
  | cdq => exact .bind (get_faults _) fun _ => put_faults _ _
  | shift kind dst count => exact shift_faults hmechanical p kind count fun s => hsymbol
  | shld dst src count => exact shiftDouble_faults hmechanical p true src count fun s => hsymbol
  | shrd dst src count => exact shiftDouble_faults hmechanical p false src count fun s => hsymbol
  | jmp target =>
    refine .bind (targetAddress_faults p ?_ ?_) fun _ => goto_faults _
    · rintro l rfl
      exact hlabel rfl
    · rintro s rfl
      exact hsymbol List.mem_cons_self
  | jcc cond target =>
    refine .bind .get fun _ => .ite ?_ (.pure _)
    exact .bind (labelAddress_faults p (hlabel rfl)) fun _ => goto_faults _
  | call target =>
    refine call_faults hmechanical p (hplain target rfl) ?_ ?_
    · rintro l rfl
      exact hlabel rfl
    · rintro s rfl
      exact hsymbol List.mem_cons_self
  | ret => exact .bind (pop_faults hmechanical) fun _ => goto_faults _

end Mechanical

/-! ## Runs -/

variable {p : Program Instr}

theorem cycle_faults (h : Allows p E) : OnlyFaults E (cycle p) := by
  refine .bind .get fun m => .bind (indexOf_faults h.mechanical p _) fun index =>
    .bind (.modify _) fun _ => ?_
  split
  · exact .throw fun _ => h.plain trivial
  · rename_i instr hinstr
    exact .bind (goto_faults _) fun _ => execute_faults p (h.instr hinstr) fun _ _ => h.plain

theorem run_faults (h : Allows p E) (fuel : Nat) : OnlyFaults E (run p fuel) := by
  induction fuel with
  | zero =>
    intro m fault m' heq
    unfold run at heq
    split at heq <;> cases heq
    exact h.plain trivial
  | succ fuel ih =>
    intro m fault m' heq
    unfold run at heq
    split at heq
    · cases heq
    · split at heq
      · exact ih _ fault m' heq
      · rename_i fault' m'' hcycle
        cases heq
        exact cycle_faults h m _ _ hcycle

theorem invoke_faults (h : Allows p E) {entry : Symbol} (hentry : AllowsSymbol p E entry)
    (args : List StackValue) (returnBytes : UInt32) : OnlyFaults E (invoke p entry args returnBytes) := by
  refine .bind (.modify _) fun _ => .bind (put_faults _ _) fun _ =>
    .bind (.forM (push_faults h.mechanical) _) fun _ => .bind (get_faults _) fun _ =>
    .bind (put_faults _ _) fun _ => .bind (push_faults h.mechanical _) fun _ =>
    .bind (resolve_faults p hentry) fun _ => .bind (goto_faults _) fun _ =>
    .bind (run_faults h _) fun _ => .bind (get_faults _) fun sp => ?_
  have hresult := OnlyFaults.mapM (E := E) (fun k => onStore_faults h.mechanical
    (Store.read_faults (sp + 4 * UInt32.ofNat k) 4)) (List.range (returnBytes / 4).toNat)
  exact .ite (.bind (.throw fun _ => h.plain trivial) fun _ => hresult) hresult

end Faults

end Stencil.X86.Machine
