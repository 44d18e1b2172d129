import Stencil.Proofs.Assembly
import Stencil.Proofs.Errors.Lookups

/-!
# Labels that are resolved

A reference to a name goes to where the last line that binds the name stands, before or after the reference.
Assembling fails exactly when no line binds a name that is referred to, or a branch with an offset of one byte
stands too far away.
-/

namespace Stencil

open Stateful

namespace Assembly

def size (lines : List Line) : Nat := extent 0 lines

/-- The last line that binds `name` stands at `position`. -/
def Binds (lines : List Line) (name : String) (position : Nat) : Prop :=
  ∃ before after, lines = before ++ .label name :: after ∧ Line.label name ∉ after ∧ position = size before

end Assembly

def Line.references : Line → List String
  | .branch _ name => [name]
  | .switch names => names
  | _ => []

namespace Assembly

/-! ## Sizes -/

theorem le_next (position : Nat) (line : Line) : position ≤ line.next position := by
  rw [Line.next]
  cases hplace : line.place position with
  | none => exact Nat.le_refl _
  | some i =>
    obtain ⟨hstart, hlt⟩ := Line.place_ok hplace
    exact hstart ▸ hlt.le

theorem le_extent (position : Nat) (lines : List Line) : position ≤ extent position lines := by
  induction lines generalizing position with
  | nil => exact Nat.le_refl _
  | cons line lines ih => exact (le_next position line).trans (ih _)

theorem size_le_size_append (before after : List Line) : size before ≤ size (before ++ after) := by
  rw [size, size, extent_append]
  exact le_extent _ after

theorem size_append_singleton (lines : List Line) (line : Line) :
    size (lines ++ [line]) = line.next (size lines) := by
  rw [size, extent_append]
  rfl

/-! ## Bindings -/

theorem bindings_cons_of_isCode {position : Nat} {line : Line} {rest : List Line} (h : line.isCode = true) :
    bindings position (line :: rest) = bindings (line.next position) rest := by
  cases line with
  | label => cases h
  | _ => rfl

theorem bindings_append (position : Nat) (before after : List Line) :
    bindings position (before ++ after) = bindings position before ++ bindings (extent position before) after := by
  induction before generalizing position with
  | nil => rfl
  | cons line before ih =>
    have hextent : extent position (line :: before) = extent (line.next position) before := rfl
    rw [List.cons_append, hextent]
    cases hcode : line.isCode with
    | true => rw [bindings_cons_of_isCode hcode, bindings_cons_of_isCode hcode, ih]
    | false =>
      cases line with
      | label name =>
        rw [bindings, bindings, ih]
        rfl
      | _ => cases hcode

theorem Binds.le_size {lines : List Line} {name : String} {position : Nat} (h : Binds lines name position) :
    position ≤ size lines := by
  obtain ⟨before, after, rfl, -, rfl⟩ := h
  exact size_le_size_append before _

theorem binds_append_label {lines : List Line} {name : String} {position : Nat} :
    Binds (lines ++ [.label name]) name position ↔ position = size lines := by
  constructor
  · rintro ⟨before, after, heq, hnot, rfl⟩
    cases after using List.reverseRecOn with
    | nil => rw [List.append_cancel_right heq]
    | append_singleton after line =>
      rw [← List.cons_append, ← List.append_assoc] at heq
      obtain ⟨-, hlast⟩ := List.append_inj' heq rfl
      exact absurd (by simp [List.singleton_inj.mp hlast]) hnot
  · rintro rfl
    exact ⟨lines, [], rfl, List.not_mem_nil, rfl⟩

theorem binds_append_other {lines : List Line} {line : Line} {name : String} {position : Nat}
    (h : line ≠ .label name) : Binds (lines ++ [line]) name position ↔ Binds lines name position := by
  constructor
  · rintro ⟨before, after, heq, hnot, rfl⟩
    cases after using List.reverseRecOn with
    | nil =>
      obtain ⟨-, hlast⟩ := List.append_inj' heq rfl
      exact absurd (List.singleton_inj.mp hlast) h
    | append_singleton after last =>
      rw [← List.cons_append, ← List.append_assoc] at heq
      obtain ⟨rfl, -⟩ := List.append_inj' heq rfl
      exact ⟨before, after, rfl, fun hmem => hnot (List.mem_append_left _ hmem), rfl⟩
  · rintro ⟨before, after, rfl, hnot, rfl⟩
    refine ⟨before, after ++ [line], by simp, ?_, rfl⟩
    simp [hnot, h.symm]

/-- The table of labels has the last binding of every name. -/
theorem lookup_bindings {lines : List Line} {name : String} {position : Nat} :
    (bindings 0 lines).reverse.lookup name = some position ↔ Binds lines name position := by
  induction lines using List.reverseRecOn with
  | nil => simp [bindings, Binds]
  | append_singleton lines line ih =>
    rw [bindings_append, List.reverse_append]
    by_cases hlabel : ∃ bound, line = .label bound
    · obtain ⟨bound, rfl⟩ := hlabel
      have hlast : bindings (extent 0 lines) [.label bound] = [(bound, size lines)] := rfl
      rw [hlast, List.reverse_singleton, List.singleton_append, List.lookup_cons]
      by_cases hname : name = bound
      · subst hname
        rw [beq_self_eq_true, binds_append_label]
        exact ⟨fun h => (Option.some.inj h).symm, fun h => h ▸ rfl⟩
      · rw [beq_false_of_ne hname, binds_append_other (by simpa using Ne.symm hname)]
        exact ih
    · have hnone : bindings (extent 0 lines) [line] = [] := by
        cases line with
        | label bound => exact absurd ⟨bound, rfl⟩ hlabel
        | _ => rfl
      rw [hnone, binds_append_other (fun heq => hlabel ⟨name, heq⟩)]
      exact ih

/-! ## Lines in their places -/

theorem mem_layout {position : Nat} {lines : List Line} {i : Instruction} {line : Line}
    (h : (i, line) ∈ layout position lines) :
    ∃ before after, lines = before ++ line :: after ∧ line.place (extent position before) = some i := by
  induction lines generalizing position with
  | nil => cases h
  | cons first rest ih =>
    have hfirst : extent position [first] = first.next position := rfl
    rw [layout] at h
    cases hplace : first.place position with
    | none =>
      rw [hplace] at h
      obtain ⟨before, after, rfl, hat⟩ := ih h
      refine ⟨first :: before, after, rfl, ?_⟩
      rwa [← List.singleton_append, extent_append, hfirst, Line.next, hplace]
    | some j =>
      rw [hplace] at h
      rcases List.mem_cons.mp h with heq | h
      · obtain ⟨rfl, rfl⟩ := Prod.mk.inj heq
        exact ⟨[], rest, rfl, hplace⟩
      · obtain ⟨before, after, rfl, hat⟩ := ih h
        refine ⟨first :: before, after, rfl, ?_⟩
        rwa [← List.singleton_append, extent_append, hfirst, Line.next, hplace]

theorem mem_layout_of_place {position : Nat} {before after : List Line} {line : Line} {i : Instruction}
    (h : line.place (extent position before) = some i) :
    (i, line) ∈ layout position (before ++ line :: after) := by
  rw [layout_append, layout, h]
  simp

theorem nextPosition_of_place {before : List Line} {line : Line} {i : Instruction}
    (h : line.place (size before) = some i) : i.nextPosition = size (before ++ [line]) := by
  rw [size_append_singleton, Line.next, h]

theorem offset_eq_ok {lines : List Line} {i : Instruction} {name : String} {distance : Int} :
    offset (bindings 0 lines).reverse i name = .ok distance ↔
      ∃ target, Binds lines name target ∧ distance = target - i.nextPosition := by
  rw [offset]
  cases hlookup : (bindings 0 lines).reverse.lookup name with
  | none =>
    constructor
    · intro h
      cases h
    · rintro ⟨target, hbinds, -⟩
      rw [lookup_bindings.mpr hbinds] at hlookup
      cases hlookup
  | some target =>
    have hbinds := lookup_bindings.mp hlookup
    constructor
    · exact fun h => ⟨target, hbinds, (Except.ok.inj h).symm⟩
    · rintro ⟨target', hbinds', rfl⟩
      rw [← lookup_bindings, hlookup] at hbinds'
      rw [Option.some.inj hbinds']

end Assembly

/-! ## Tables of offsets -/

theorem Bytes.take_drop_flatMap {α : Type} {f : α → List UInt8} {width : Nat} (hf : ∀ a, (f a).length = width)
    {as : List α} {k : Nat} (hk : k < as.length) : ((as.flatMap f).drop (width * k)).take width = f as[k] := by
  induction as generalizing k with
  | nil => cases hk
  | cons a as ih =>
    rw [List.flatMap_cons]
    cases k with
    | zero => simp [hf a]
    | succ k =>
      have hskip : width * (k + 1) = (f a).length + width * k := by rw [hf a, Nat.mul_succ, Nat.add_comm]
      rw [hskip, ← List.drop_drop, List.drop_left, List.getElem_cons_succ]
      exact ih _

theorem Bytes.length_offsets (n : Nat) (offsets : List Int) :
    (split 4 n ++ offsets.flatMap (splitInt 4)).length = 4 + 4 * offsets.length := by
  rw [List.length_append, length_split, List.length_flatMap,
    List.map_congr_left fun d _ => length_splitInt 4 d]
  simp [Nat.mul_comm]

/-- A count and that many offsets are read back as targets. -/
theorem Instruction.switchTargets_of_offsets {i : Instruction} {offsets : List Int}
    (h : i.operand = Bytes.split 4 offsets.length ++ offsets.flatMap (Bytes.splitInt 4))
    (hcount : offsets.length < 2 ^ 32) (hrange : ∀ d ∈ offsets, -2 ^ 31 ≤ d ∧ d < 2 ^ 31) :
    i.switchTargets = .ok (offsets.map ((i.nextPosition : Int) + ·)) := by
  have hwidth : ∀ d, (Bytes.splitInt 4 d).length = 4 := Bytes.length_splitInt 4
  have hlength : i.operand.length = 4 + 4 * offsets.length := by rw [h, Bytes.length_offsets]
  have hread : i.operandNat 4 = .ok offsets.length := operandNat_of_split h hcount
  have hpresent : ¬(i.operand.length - 4) / 4 < offsets.length := by omega
  have hoffset : ∀ (k : Nat) (hk : k < offsets.length), i.operandIntAt (4 + 4 * k) 4 = .ok offsets[k] := by
    intro k hk
    obtain ⟨hlow, hhigh⟩ := hrange offsets[k] (List.getElem_mem hk)
    have hbytes : (i.operand.drop (4 + 4 * k)).take 4 = Bytes.splitInt 4 offsets[k] := by
      rw [h, ← List.drop_drop, List.drop_left' (Bytes.length_split 4 _)]
      exact Bytes.take_drop_flatMap hwidth hk
    rw [operandIntAt, operandBytes, if_pos (by omega), hbytes, Except.map, Bytes.combineInt_splitInt]
    · simp only [Word.modulus]
      omega
    · simp only [Word.modulus]
      omega
  refine answer_bind.mpr ⟨_, hread, ?_⟩
  dsimp only
  rw [if_neg hpresent, answer_mapM]
  refine List.forall₂_of_length_eq_of_get (by simp) fun k hk hk' => ?_
  have hlt : k < offsets.length := by simpa using hk
  simp [hoffset k hlt, Except.map]

/-! ## One line -/

/-- Lines of branches are for branches and leaves. -/
def Line.JumpsOnly (line : Line) : Prop :=
  ∀ op name, line = .branch op name → op.operation = .leave ∨ ∃ condition, op.operation = .branch condition

namespace Assembly

/-- A branch with an offset of one byte, behind `before`, reaches what its name is bound to. -/
def Reaches (lines before : List Line) (line : Line) : Prop :=
  ∀ op name target, line = .branch op name → op.operandKind = .shortBranch → Binds lines name target →
    -128 ≤ (target : Int) - size (before ++ [line]) ∧ (target : Int) - size (before ++ [line]) ≤ 127

/-- The instruction of a line in its place: it ends where its bytes do, and where it refers to names it goes to
what they are bound to. -/
structure Resolved (lines before : List Line) (line : Line) (i : Instruction) : Prop where
  position : i.position = size before
  next : i.nextPosition = i.position + i.op.encodedLength + i.operand.length
  branch : ∀ op name, line = .branch op name →
    ∃ target : Nat, Binds lines name target ∧ i.branchTarget = .ok target
  switch : ∀ names, line = .switch names →
    ∃ targets : List Nat, List.Forall₂ (Binds lines) names targets ∧
      i.switchTargets = .ok (targets.map Int.ofNat)

theorem Binds.unique {lines : List Line} {name : String} {p q : Nat} (hp : Binds lines name p)
    (hq : Binds lines name q) : p = q := by
  rw [← lookup_bindings] at hp hq
  exact Option.some.inj (hp.symm.trans hq)

section Resolve

variable {lines before after : List Line} {line : Line} {i i' : Instruction} {op : Opcode} {name : String}
  {names : List String}

/-- A branch is resolved by its distance, in one byte where it has only one. -/
theorem resolve_branch_eq_ok :
    resolve (bindings 0 lines).reverse i (.branch op name) = .ok i' ↔
      ∃ target : Nat, Binds lines name target ∧
        (i.op.operandKind = .shortBranch →
          -128 ≤ (target : Int) - i.nextPosition ∧ (target : Int) - i.nextPosition ≤ 127) ∧
        i' = { i with
          operand := Bytes.splitInt (if i.op.operandKind = .shortBranch then 1 else 4) (target - i.nextPosition) } := by
  have hbind : resolve (bindings 0 lines).reverse i (.branch op name) = .ok i' ↔
      ∃ target : Nat, Binds lines name target ∧
        (if i.op.operandKind = .shortBranch then
          if -128 ≤ (target : Int) - i.nextPosition ∧ (target : Int) - i.nextPosition ≤ 127 then
            .ok { i with operand := Bytes.splitInt 1 (target - i.nextPosition) }
          else .error (i.badTarget (i.nextPosition + (target - i.nextPosition)))
        else .ok { i with operand := Bytes.splitInt 4 (target - i.nextPosition) }) = Except.ok i' := by
    refine answer_bind.trans ⟨?_, ?_⟩
    · rintro ⟨distance, hdistance, h⟩
      obtain ⟨target, hbinds, rfl⟩ := offset_eq_ok.mp hdistance
      exact ⟨target, hbinds, h⟩
    · rintro ⟨target, hbinds, h⟩
      exact ⟨_, offset_eq_ok.mpr ⟨target, hbinds, rfl⟩, h⟩
  rw [hbind]
  refine exists_congr fun target => and_congr_right fun _ => ?_
  by_cases hshort : i.op.operandKind = .shortBranch
  · by_cases hnear : -128 ≤ (target : Int) - i.nextPosition ∧ (target : Int) - i.nextPosition ≤ 127
    · simp [hshort, hnear, eq_comm]
    · rw [if_pos hshort, if_neg hnear]
      exact ⟨nofun, fun h => absurd (h.1 hshort) hnear⟩
  · simp [hshort, eq_comm]

theorem resolve_switch_eq_ok :
    resolve (bindings 0 lines).reverse i (.switch names) = .ok i' ↔
      ∃ targets : List Nat, List.Forall₂ (Binds lines) names targets ∧
        i' = { i with
          operand := Bytes.split 4 names.length ++
            (targets.map fun target : Nat => (target : Int) - i.nextPosition).flatMap (Bytes.splitInt 4) } := by
  have hoffsets : ∀ distances, names.mapM (offset (bindings 0 lines).reverse i) = .ok distances ↔
      ∃ targets : List Nat, List.Forall₂ (Binds lines) names targets ∧
        distances = targets.map fun target : Nat => (target : Int) - i.nextPosition := by
    intro distances
    rw [answer_mapM]
    induction names generalizing distances with
    | nil => simp
    | cons name names ih =>
      rw [List.forall₂_cons_left_iff]
      constructor
      · rintro ⟨distance, rest, hdistance, hrest, rfl⟩
        obtain ⟨target, hbinds, rfl⟩ := offset_eq_ok.mp hdistance
        obtain ⟨targets, hall, rfl⟩ := (ih rest).mp hrest
        exact ⟨target :: targets, .cons hbinds hall, rfl⟩
      · rintro ⟨targets, hall, rfl⟩
        obtain ⟨target, rest, hbinds, hrest, rfl⟩ := List.forall₂_cons_left_iff.mp hall
        exact ⟨_, _, offset_eq_ok.mpr ⟨target, hbinds, rfl⟩, (ih _).mpr ⟨rest, hrest, rfl⟩, rfl⟩
  refine answer_bind.trans ⟨?_, ?_⟩
  · rintro ⟨distances, hdistances, h⟩
    obtain ⟨targets, hall, rfl⟩ := (hoffsets distances).mp hdistances
    exact ⟨targets, hall, (Except.ok.inj h).symm⟩
  · rintro ⟨targets, hall, rfl⟩
    exact ⟨_, (hoffsets _).mpr ⟨targets, hall, rfl⟩, rfl⟩

theorem exists_forall₂ {α β : Type} {R : α → β → Prop} {as : List α} :
    (∃ bs, List.Forall₂ R as bs) ↔ ∀ a ∈ as, ∃ b, R a b := by
  induction as with
  | nil => simp
  | cons a as ih =>
    rw [List.forall_mem_cons, ← ih]
    simp [List.forall₂_cons_left_iff]

/-- A line can be resolved if what it refers to is bound, near enough for a branch of one byte. -/
theorem exists_resolve_iff (hplace : line.place (size before) = some i) :
    (∃ i', resolve (bindings 0 lines).reverse i line = .ok i') ↔
      (∀ name ∈ line.references, ∃ target, Binds lines name target) ∧ Reaches lines before line := by
  have hnext := nextPosition_of_place hplace
  have hplain : line.references = [] → (∀ op name, line ≠ .branch op name) →
      (∀ name ∈ line.references, ∃ target, Binds lines name target) ∧ Reaches lines before line := by
    intro hnone hbranch
    refine ⟨by simp [hnone], ?_⟩
    exact fun op name target hline => absurd hline (hbranch op name)
  cases line with
  | branch op name =>
    have hop : i.op = op := by
      obtain rfl := Option.some.inj hplace
      rfl
    simp only [resolve_branch_eq_ok, Line.references, List.forall_mem_singleton, Reaches, ← hnext, hop]
    constructor
    · rintro ⟨i', target, hbinds, hnear, -⟩
      refine ⟨⟨target, hbinds⟩, ?_⟩
      rintro _ _ target' ⟨⟩ hshort hbinds'
      obtain rfl := hbinds.unique hbinds'
      exact hnear hshort
    · rintro ⟨⟨target, hbinds⟩, hreach⟩
      exact ⟨_, target, hbinds, fun hshort => hreach op name target rfl hshort hbinds, rfl⟩
  | switch names =>
    simp only [resolve_switch_eq_ok, Line.references]
    constructor
    · rintro ⟨i', targets, hall, -⟩
      refine ⟨exists_forall₂.mp ⟨targets, hall⟩, ?_⟩
      rintro _ _ target ⟨⟩
    · rintro ⟨hall, -⟩
      obtain ⟨targets, htargets⟩ := exists_forall₂.mpr hall
      exact ⟨_, targets, htargets, rfl⟩
  | _ =>
    constructor
    · intro _
      exact hplain rfl (by rintro _ _ ⟨⟩)
    · intro _
      exact ⟨i, rfl⟩

theorem nextPosition_le_size (hlines : lines = before ++ line :: after)
    (hplace : line.place (size before) = some i) : i.nextPosition ≤ size lines := by
  have hsplit : lines = (before ++ [line]) ++ after := by simp [hlines]
  rw [nextPosition_of_place hplace, hsplit]
  exact size_le_size_append _ _

theorem next_of_place {position : Nat} (h : line.place position = some i) :
    i.nextPosition = i.position + i.op.encodedLength + i.operand.length := by
  cases line with
  | label => cases h
  | _ =>
    obtain rfl := Option.some.inj h
    rfl

theorem length_operand_of_branch {position : Nat} (hjumps : (Line.branch op name).JumpsOnly)
    (h : (Line.branch op name).place position = some i) :
    i.operand.length = if op.operandKind = .shortBranch then 1 else 4 := by
  obtain rfl := Option.some.inj h
  rcases operandKind_of_branch (hjumps op name rfl) with hkind | hkind <;>
    simp [Instruction.placed, hkind, OperandKind.width?]

theorem length_operand_of_switch {position : Nat} (h : (Line.switch names).place position = some i) :
    i.operand.length = 4 + 4 * names.length := by
  obtain rfl := Option.some.inj h
  simp [Instruction.placed, Bytes.length_split]

theorem branchTarget_of_splitInt {target : Nat} (hkind : i.op.operandKind = .shortBranch ∨ i.op.operandKind = .branch)
    (hoperand : i.operand = Bytes.splitInt (if i.op.operandKind = .shortBranch then 1 else 4) (target - i.nextPosition))
    (hnear : i.op.operandKind = .shortBranch →
      -128 ≤ (target : Int) - i.nextPosition ∧ (target : Int) - i.nextPosition ≤ 127)
    (hfar : -2 ^ 31 ≤ (target : Int) - i.nextPosition ∧ (target : Int) - i.nextPosition < 2 ^ 31) :
    i.branchTarget = .ok target := by
  have hsum : (i.nextPosition : Int) + (target - i.nextPosition) = target := by omega
  rcases hkind with hkind | hkind
  · rw [if_pos hkind] at hoperand
    have hread : i.operandInt 1 = .ok (target - i.nextPosition) := by
      obtain ⟨hlow, hhigh⟩ := hnear hkind
      apply Instruction.operandInt_of_splitInt hoperand <;> simp only [Word.modulus] <;> omega
    simp [Instruction.branchTarget, hkind, hread, Except.map]
  · rw [if_neg (by simp [hkind])] at hoperand
    have hread : i.operandInt 4 = .ok (target - i.nextPosition) := by
      obtain ⟨hlow, hhigh⟩ := hfar
      apply Instruction.operandInt_of_splitInt hoperand <;> simp only [Word.modulus] <;> omega
    simp [Instruction.branchTarget, hkind, hread, Except.map]

/-- What is resolved goes to what its names are bound to. -/
theorem resolved_of_resolve (hsize : size lines < 2 ^ 31) (hlines : lines = before ++ line :: after)
    (hjumps : line.JumpsOnly) (hplace : line.place (size before) = some i)
    (h : resolve (bindings 0 lines).reverse i line = .ok i') : Resolved lines before line i' := by
  have hposition := (Line.place_ok hplace).1
  have hnext := next_of_place hplace
  have hend := nextPosition_le_size hlines hplace
  -- an offset between two positions of the body fits a word
  have hdistance : ∀ {name target}, Binds lines name target →
      -2 ^ 31 ≤ (target : Int) - i.nextPosition ∧ (target : Int) - i.nextPosition < 2 ^ 31 := by
    intro name target hbinds
    have htarget := hbinds.le_size
    omega
  cases line with
  | branch op name =>
    obtain ⟨target, hbinds, hnear, rfl⟩ := resolve_branch_eq_ok.mp h
    have hop : i.op = op := by
      obtain rfl := Option.some.inj hplace
      rfl
    have hkind : i.op.operandKind = .shortBranch ∨ i.op.operandKind = .branch := by
      rw [hop]
      exact operandKind_of_branch (hjumps op name rfl)
    refine ⟨hposition, ?_, ?_, by rintro _ ⟨⟩⟩
    · rw [length_operand_of_branch hjumps hplace] at hnext
      simpa [Bytes.length_splitInt, hop] using hnext
    · rintro _ _ ⟨⟩
      exact ⟨target, hbinds, branchTarget_of_splitInt hkind rfl hnear (hdistance hbinds)⟩
  | switch names =>
    obtain ⟨targets, hall, rfl⟩ := resolve_switch_eq_ok.mp h
    have hlength := hall.length_eq
    rw [length_operand_of_switch hplace] at hnext
    refine ⟨hposition, ?_, by rintro _ _ ⟨⟩, ?_⟩
    · dsimp only
      rw [Bytes.length_offsets, List.length_map, ← hlength]
      exact hnext
    · rintro _ ⟨⟩
      refine ⟨targets, hall, ?_⟩
      let offsets := targets.map fun target : Nat => (target : Int) - i.nextPosition
      have hcount : offsets.length = names.length := by rw [List.length_map, hlength]
      have hrange : ∀ d ∈ offsets, -2 ^ 31 ≤ d ∧ d < 2 ^ 31 := by
        intro d hd
        obtain ⟨target, hmem, rfl⟩ := List.mem_map.mp hd
        obtain ⟨name, hbinds⟩ := exists_forall₂.mp ⟨names, hall.flip⟩ target hmem
        exact hdistance hbinds
      rw [Instruction.switchTargets_of_offsets (by dsimp only; rw [hcount]) (by omega) hrange, List.map_map]
      congr 1
      refine List.map_congr_left fun target _ => ?_
      simp
  | label => cases hplace
  | _ =>
    obtain rfl := Except.ok.inj h
    exact ⟨hposition, hnext, by rintro _ _ ⟨⟩, by rintro _ ⟨⟩⟩

end Resolve

/-! ## Bodies -/

variable {lines : List Line}

/-- The body can be assembled if all names are bound and near enough. -/
theorem exists_assemble_iff :
    (∃ instructions, assemble lines = .ok instructions) ↔
      (∀ line ∈ lines, ∀ name ∈ line.references, ∃ target, Binds lines name target) ∧
      ∀ before line after, lines = before ++ line :: after → Reaches lines before line := by
  have hall : (∃ instructions, assemble lines = .ok instructions) ↔
      ∀ part ∈ layout 0 lines, ∃ i', resolve (bindings 0 lines).reverse part.1 part.2 = .ok i' := by
    refine (exists_congr fun instructions => ?_).trans exists_forall₂
    exact answer_mapM
  rw [hall]
  constructor
  · intro hresolves
    have hline : ∀ before line after, lines = before ++ line :: after →
        (∀ name ∈ line.references, ∃ target, Binds lines name target) ∧ Reaches lines before line := by
      intro before line after hlines
      cases hplace : line.place (size before) with
      | none =>
        cases line with
        | label name => exact ⟨by simp [Line.references], by rintro _ _ _ ⟨⟩⟩
        | _ => cases hplace
      | some i =>
        have hmem : (i, line) ∈ layout 0 lines := by
          rw [hlines]
          exact mem_layout_of_place hplace
        exact (exists_resolve_iff hplace).mp (hresolves _ hmem)
    constructor
    · intro line hmem
      obtain ⟨before, after, hlines⟩ := List.append_of_mem hmem
      exact (hline before line after hlines).1
    · exact fun before line after hlines => (hline before line after hlines).2
  · rintro ⟨hbound, hreaches⟩ ⟨i, line⟩ hmem
    obtain ⟨before, after, hlines, hplace⟩ := mem_layout hmem
    refine (exists_resolve_iff hplace).mpr ⟨hbound line ?_, hreaches before line after hlines⟩
    rw [hlines]
    simp

/-- What an assembled body looks like: its instructions follow each other from position zero on, each ends
where its bytes do, and those of branches and switches go to what their names are bound to. -/
structure Built (lines : List Line) (instructions : List Instruction) : Prop where
  contiguous : Contiguous 0 instructions
  ends : ∀ i ∈ instructions, i.nextPosition = i.position + i.op.encodedLength + i.operand.length
  length : instructions.length = lines.countP Line.isCode
  line : ∀ before line after, lines = before ++ line :: after → line.isCode = true →
    ∃ i, instructions[before.countP Line.isCode]? = some i ∧ Resolved lines before line i

theorem built_of_assemble (hjumps : ∀ line ∈ lines, line.JumpsOnly) (hsize : size lines < 2 ^ 31)
    {instructions : List Instruction} (h : assemble lines = .ok instructions) : Built lines instructions where
  contiguous := assemble_contiguous h
  ends i' hi' := by
    obtain ⟨⟨i, line⟩, hmem, hresolved⟩ := (mem_of_answer_mapM h).1 i' hi'
    obtain ⟨before, after, hlines, hplace⟩ := mem_layout hmem
    have hline : line ∈ lines := by simp [hlines]
    exact (resolved_of_resolve hsize hlines (hjumps line hline) hplace hresolved).next
  length := length_of_assemble h
  line before line after hlines hcode := by
    have hline : line ∈ lines := by simp [hlines]
    obtain ⟨i, hplace⟩ := Option.isSome_iff_exists.mp ((line.isSome_place (size before)).trans hcode)
    subst hlines
    obtain ⟨i', hget, hresolved⟩ := record_of_line h hplace
    exact ⟨i', hget, resolved_of_resolve hsize rfl (hjumps line hline) hplace hresolved⟩

/-- Some line refers to a name that no line binds. -/
def MissesLabel (lines : List Line) : Prop :=
  ∃ line ∈ lines, ∃ name ∈ line.references, ∀ target, ¬Binds lines name target

/-- Some branch with an offset of one byte does not reach what its name is bound to. -/
def OutOfReach (lines : List Line) : Prop :=
  ∃ before line after, lines = before ++ line :: after ∧ ¬Reaches lines before line

/-- Every reference goes to the last binding of its name, and only a name that is not bound or a short branch
that does not reach it keeps a body from being assembled. -/
theorem labels_are_resolved (hjumps : ∀ line ∈ lines, line.JumpsOnly) (hsize : size lines < 2 ^ 31) :
    (∀ instructions, assemble lines = .ok instructions → Built lines instructions) ∧
    ((∃ e, assemble lines = .error e) ↔ MissesLabel lines ∨ OutOfReach lines) := by
  refine ⟨fun instructions h => built_of_assemble hjumps hsize h, ?_⟩
  have herror : (∃ e, assemble lines = .error e) ↔ ¬∃ instructions, assemble lines = .ok instructions := by
    cases assemble lines <;> simp
  rw [herror, exists_assemble_iff, not_and_or]
  simp [MissesLabel, OutOfReach]

/-- A loop whose name is bound again at its end, behind a table of cases in both directions. -/
def loopLines : List Line :=
  [.label "top", .plain .ldarg0, .switch ["top", "end"], .branch .brS "end", .label "end", .branch .br "top",
    .label "top", .plain .ret]

theorem loopLines_jumpsOnly : ∀ line ∈ loopLines, line.JumpsOnly := by
  have hjump : ∀ op name, op.operation = .branch .always → (Line.branch op name).JumpsOnly := by
    rintro op name hop _ _ ⟨⟩
    exact .inr ⟨_, hop⟩
  intro line hmem
  cases line with
  | branch op name =>
    have hop : op = .brS ∨ op = .br := by
      simp only [loopLines, List.mem_cons, reduceCtorEq, Line.branch.injEq, List.not_mem_nil, false_or, or_false]
        at hmem
      exact hmem.imp And.left And.left
    rcases hop with rfl | rfl <;> exact hjump _ _ rfl
  | _ => rintro _ _ ⟨⟩

theorem labels_are_resolved_loop :
    (∃ instructions, assemble loopLines = .ok instructions ∧ Built loopLines instructions) ∧
    ¬MissesLabel loopLines ∧ ¬OutOfReach loopLines := by
  have hassembled : ∃ instructions, assemble loopLines = .ok instructions := ⟨_, rfl⟩
  obtain ⟨instructions, h⟩ := hassembled
  obtain ⟨hbuilt, hfails⟩ := labels_are_resolved loopLines_jumpsOnly (by decide)
  refine ⟨⟨instructions, h, hbuilt instructions h⟩, not_or.mp fun hfail => ?_⟩
  obtain ⟨e, he⟩ := hfails.mpr hfail
  cases h.symm.trans he

end Assembly

end Stencil
