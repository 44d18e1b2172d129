import Stencil.Machine.Invocation
import Stencil.Proofs.Machine.Placement
import Stencil.Proofs.Stateful

/-!
# The list of released objects

Work on the store leaves the list as it is, and so do the intrinsics but for one, which appends the word
that it finds on top of the stack (`Program.released_runIntrinsic`). In a linked program only the symbol of
that intrinsic has its address (`Linked.symbol_of_intrinsicAddress`). So what a run releases goes back to the calls
among the instructions that it ran (`ReleasedBy`).
-/

namespace Stencil

open AddressMap Link Stateful

/-! ## The store -/

/-- Work on the store that releases nothing. -/
abbrev ReleasesNothing {α : Type} (x : StoreM α) : Prop := Keeps Store.released x

namespace Store

theorem read_releases (address : UInt32) (count : Nat) : ReleasesNothing (read address count) := by
  intro s
  unfold stateAfter read
  cases s.memory.read address count <;> rfl

theorem write_releases (address : UInt32) (count : Nat) (value : UInt32) :
    ReleasesNothing (write address count value) := by
  intro s
  unfold stateAfter write
  cases Memory.mapped address count <;> rfl

theorem clear_releases (address : UInt32) (count : Nat) : ReleasesNothing (clear address count) := by
  intro s
  unfold stateAfter clear
  cases Memory.mapped address count <;> rfl

theorem allocate_releases (size : UInt32) : ReleasesNothing (allocate size) := by
  refine .bind .get fun s => .ite ?_ (.pure _)
  exact .bind (clear_releases _ _) fun _ => .bind (.modify fun _ => rfl) fun _ => .pure _

end Store

namespace Program

variable {I : Type} (p : Program I)

theorem typeInfoAt_releases (descriptor : UInt32) : ReleasesNothing (p.typeInfoAt descriptor) := by
  unfold typeInfoAt
  split
  · exact .pure _
  · exact .throw _

theorem newObject_releases (descriptor : UInt32) : ReleasesNothing (p.newObject descriptor) := by
  refine .bind (p.typeInfoAt_releases _) fun _ => .bind (Store.allocate_releases _) fun _ => ?_
  exact .ite (.bind (Store.write_releases _ _ _) fun _ => .pure _) (.pure _)

theorem newArray_releases (descriptor length : UInt32) : ReleasesNothing (p.newArray descriptor length) := by
  refine .bind (p.typeInfoAt_releases _) fun info => ?_
  split
  · exact .pure _
  · refine .bind (Store.allocate_releases _) fun _ => .ite ?_ (.pure _)
    exact .bind (Store.write_releases _ _ _) fun _ => .bind (Store.write_releases _ _ _) fun _ => .pure _

theorem runIntrinsic_releases {intrinsic : Intrinsic} (h : intrinsic ≠ .release) (sp site : UInt32) :
    ReleasesNothing (p.runIntrinsic intrinsic sp site) := by
  have hread := fun address => Store.read_releases address 4
  have hwrite := fun address value => Store.write_releases address 4 value
  cases intrinsic with
  | callSite => exact .pure _
  | throwNullReference | throwIndexOutOfRange | throwInvalidCast | throwObject | halt =>
    exact .bind (hread _) fun _ => .throw _
  | release => exact absurd rfl h
  | newObject =>
    exact .bind (hread _) fun _ => .bind (p.newObject_releases _) fun _ => .bind (hwrite _ _) fun _ => .pure _
  | newArray =>
    exact .bind (hread _) fun _ => .bind (hread _) fun _ => .bind (p.newArray_releases _ _) fun _ =>
      .bind (hwrite _ _) fun _ => .pure _

/-- The intrinsic that releases appends the word on top of the stack. -/
theorem runIntrinsic_release {sp site w : UInt32} {s : Store} (h : s.memory.read sp 4 = .ok w) :
    p.runIntrinsic .release sp site s = .ok none { s with released := s.released.push w } := by
  have hread : Store.readWord (sp + UInt32.ofNat Intrinsic.release.returnBytes) s = .ok w s := by
    rw [show UInt32.ofNat Intrinsic.release.returnBytes = 0 from rfl, UInt32.add_zero, Store.readWord,
      Store.read, h]
  exact bind_of_ok hread

/-- An intrinsic releases nothing, or it is the one that releases the word on top of the stack. -/
theorem released_runIntrinsic (intrinsic : Intrinsic) (sp site : UInt32) (s : Store) :
    (stateAfter (p.runIntrinsic intrinsic sp site) s).released = s.released ∨
      intrinsic = .release ∧ ∃ w, s.memory.read sp 4 = .ok w ∧
        (stateAfter (p.runIntrinsic intrinsic sp site) s).released = s.released.push w := by
  by_cases hrelease : intrinsic = .release
  · subst hrelease
    cases hread : s.memory.read sp 4 with
    | ok w => exact .inr ⟨rfl, w, rfl, by rw [stateAfter_of_ok (p.runIntrinsic_release hread)]⟩
    | error fault =>
      refine .inl ?_
      have hfault : Store.readWord (sp + UInt32.ofNat Intrinsic.release.returnBytes) s = .error fault s := by
        rw [show UInt32.ofNat Intrinsic.release.returnBytes = 0 from rfl, UInt32.add_zero, Store.readWord,
          Store.read, hread]
      have hstate : stateAfter (p.runIntrinsic .release sp site) s = s := stateAfter_bind_of_error hfault
      rw [hstate]
  · exact .inl (p.runIntrinsic_releases hrelease sp site s)

end Program

/-! ## The address of the intrinsic -/

def releaseAddress : UInt32 := 0xF000001C

theorem index_release : ∀ n < 9, Intrinsic.all[n]? = some .release → n = 7 := by decide

theorem atAddress?_release {a : UInt32} (h : Intrinsic.atAddress? a = some .release) : a = releaseAddress := by
  unfold Intrinsic.atAddress? at h
  split at h
  · cases h
  · rename_i hnot
    rw [not_or, not_not, UInt32.not_lt] at hnot
    obtain ⟨hle, hmod⟩ := hnot
    have hindex := index_release _ (List.getElem?_eq_some_iff.mp h).1 h
    rw [← UInt32.toNat_inj, UInt32.toNat_mod, UInt32.toNat_sub_of_le _ _ hle] at hmod
    rw [UInt32.toNat_div, UInt32.toNat_sub_of_le _ _ hle] at hindex
    rw [UInt32.le_iff_toNat_le] at hle
    rw [← UInt32.toNat_inj]
    simp only [intrinsicBase, releaseAddress, UInt32.reduceToNat] at hmod hindex hle ⊢
    omega

/-- Another intrinsic lies in front of the one that releases. -/
theorem atAddress?_of_release_add {a : UInt32} (h : Intrinsic.atAddress? (a + 4) = some .release) :
    Intrinsic.atAddress? a ≠ none := by
  have ha : a = releaseAddress - 4 := by
    rw [← atAddress?_release h, UInt32.add_sub_cancel]
  rw [ha]
  decide

/-- Of the addresses of intrinsics, the lowest is that of the call site. -/
theorem callSite_of_low {a : UInt32} (h : a.toNat ≤ 0xF0000000) {intrinsic : Intrinsic}
    (hat : Intrinsic.atAddress? a = some intrinsic) : intrinsic = .callSite := by
  unfold Intrinsic.atAddress? at hat
  split at hat
  · cases hat
  · rename_i hnot
    rw [not_or, UInt32.not_lt] at hnot
    obtain rfl : a = intrinsicBase :=
      UInt32.toNat_inj.mp (Nat.le_antisymm h (UInt32.le_iff_toNat_le.mp hnot.1))
    exact (Option.some.inj hat).symm

theorem atAddress?_codeAddress_ne {k : Nat} (h : k ≤ codeLimit) {intrinsic : Intrinsic}
    (hne : intrinsic ≠ .callSite) : Intrinsic.atAddress? (codeAddress k) ≠ some intrinsic := by
  refine fun hat => hne (callSite_of_low ?_ hat)
  have hk : k ≤ 0x1C000000 := h
  rw [toNat_codeAddress h]
  omega

theorem atAddress?_all : ∀ (k : Nat) (hk : k < Intrinsic.all.length),
    Intrinsic.atAddress? (intrinsicBase + 4 * UInt32.ofNat k) = some Intrinsic.all[k] := by
  decide

/-- Code and data lie elsewhere, so only an intrinsic's own symbol has its address. -/
theorem Linked.symbol_of_intrinsicAddress {I : Type} [TargetInstr I] {tables : Table} {options : Options}
    {methods : List (CompiledMethod I)} {config : RunConfig} {p : Program I}
    (h : Linked methods tables options config p) (hfits : p.code.size ≤ codeLimit) {s : Symbol} {a : UInt32}
    (hresolve : p.resolve s = .ok a) {intrinsic : Intrinsic} (hat : Intrinsic.atAddress? a = some intrinsic)
    (hne : intrinsic ≠ .callSite) : s = intrinsic.symbol := by
  rcases h.resolve_cases hresolve with ⟨k, hk, rfl, rfl⟩ | ⟨base, m, hplaced, rfl⟩ | hlow
  · rw [Option.some.inj ((atAddress?_all k hk).symm.trans hat)]
  · have hend := (placeMethods_le hplaced).2
    rw [h.code, List.size_toArray] at hfits
    exact absurd hat (atAddress?_codeAddress_ne (by dsimp only at hend; omega) hne)
  · exact absurd (callSite_of_low (by omega) hat) hne

/-! ## Releases and calls -/

/-- Each of the released words goes back to a call of its own among the instructions that ran. -/
def ReleasedBy (calls : Nat → Prop) (released released' : Array UInt32) (ran : List TraceEntry) : Prop :=
  ∃ releases : List (TraceEntry × UInt32), released'.toList = released.toList ++ releases.map Prod.snd ∧
    (releases.map Prod.fst).Sublist ran ∧ ∀ release ∈ releases, calls release.1.index

namespace ReleasedBy

variable {calls : Nat → Prop} {released released' : Array UInt32} {ran late : List TraceEntry}

theorem none (ran : List TraceEntry) : ReleasedBy calls released released ran :=
  ⟨[], (List.append_nil _).symm, List.nil_sublist _, fun _ h => absurd h List.not_mem_nil⟩

theorem later (h : ReleasedBy calls released released' ran) (late : List TraceEntry) :
    ReleasedBy calls released released' (ran ++ late) := by
  obtain ⟨releases, hreleased, hsublist, hcalls⟩ := h
  exact ⟨releases, hreleased, hsublist.trans (List.sublist_append_left _ _), hcalls⟩

theorem push (h : ReleasedBy calls released released' ran) {entry : TraceEntry} (hentry : entry ∈ late)
    (hcall : calls entry.index) (w : UInt32) :
    ReleasedBy calls released (released'.push w) (ran ++ late) := by
  obtain ⟨releases, hreleased, hsublist, hcalls⟩ := h
  refine ⟨releases ++ [(entry, w)], ?_, ?_, ?_⟩
  · rw [Array.toList_push, hreleased, List.append_assoc, List.map_append]
    rfl
  · rw [List.map_append]
    exact hsublist.append (List.singleton_sublist.mpr hentry)
  · intro release hrelease
    rcases List.mem_append.mp hrelease with hmem | hmem
    · exact hcalls release hmem
    · rw [List.mem_singleton.mp hmem]
      exact hcall

end ReleasedBy

end Stencil
