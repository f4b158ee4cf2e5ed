import Funchook.OsUnix
import Funchook.TrampolineArm64

/-!
# From a patched function to its hook on AArch64

The patch is an `ADRP` and a branch; the transit code loads a 64-bit address, or leaves its own
address in `x10` for the prehook bridge. `ADRP` splits a signed distance in pages of 4096 bytes
over two fields without a check, so the patch leads to the transit code when that distance fits
in 21 bits. The page allocator of Unix keeps every page within 2 GB.
-/

namespace Funchook.Arm64

open ByteMemory
open A64 (Reg Instr State field decode wordOffset)

/-! ## Pages of 4096 bytes -/

theorem getLsbD_pageMask (i : Fin 64) :
    (18446744073709547520#64).getLsbD i.val = decide (12 ≤ i.val) := by
  revert i
  decide

theorem roundDown_page (x : Addr 64) : roundDown x adrpPageSize = (x >>> 12) <<< 12 := by
  have hmask : ~~~(adrpPageSize - 1) = 18446744073709547520#64 := by decide
  rw [roundDown, hmask]
  apply BitVec.eq_of_getLsbD_eq
  intro i hi
  have hbit := getLsbD_pageMask ⟨i, hi⟩
  rw [BitVec.getLsbD_and, hbit, BitVec.getLsbD_shiftLeft, BitVec.getLsbD_ushiftRight]
  grind

theorem roundDown_page_toNat (x : Addr 64) :
    (roundDown x adrpPageSize).toNat = x.toNat / 4096 * 4096 := by
  have hx := x.isLt
  rw [roundDown_page, BitVec.toNat_shiftLeft, BitVec.toNat_ushiftRight, Nat.shiftRight_eq_div_pow,
    Nat.shiftLeft_eq, Nat.mod_eq_of_lt]
  omega

theorem shiftLeft_sshiftRight {imm : BitVec 64} (h : imm.toNat % 4096 = 0) :
    imm.sshiftRight 12 <<< 12 = imm := by
  have hlow : ∀ i < 12, imm.getLsbD i = false := by
    intro i hi
    have hbit := Nat.testBit_mod_two_pow imm.toNat 12 i
    rw [h, Nat.zero_testBit, decide_eq_true hi, Bool.true_and] at hbit
    rw [← BitVec.testBit_toNat]
    exact hbit.symm
  apply BitVec.eq_of_getLsbD_eq
  intro i hi
  have := hlow i
  simp [hi]
  grind

theorem signExtend_page {imm : BitVec 64} (haligned : imm.toNat % 4096 = 0)
    (hrange : -2 ^ 32 ≤ imm.toInt ∧ imm.toInt < 2 ^ 32) :
    ((imm.sshiftRight 12).setWidth 21).signExtend 64 <<< 12 = imm := by
  have hd : (imm.sshiftRight 12).toInt = imm.toInt / 4096 := by
    rw [BitVec.toInt_sshiftRight, Int.shiftRight_eq_div_pow]
    rfl
  rw [signExtend_setWidth (n := 20) (by decide) (by rw [hd]; omega), shiftLeft_sshiftRight haligned]

/-- The 21-bit immediate of the `ADRP` that leads from one address to another. -/
def adrpImm (src dst : Addr 64) : BitVec 21 :=
  ((roundDown dst adrpPageSize - roundDown src adrpPageSize).sshiftRight 12).setWidth 21

theorem immlo_field (imm : BitVec 64) :
    ((imm.sshiftRight 12).setWidth 32 &&& 0x03 : Word) <<< 29 =
      field 29 (((imm.sshiftRight 12).setWidth 21).extractLsb' 0 2) := by
  have hmask : ∀ i : Fin 32, (3#32)[i.val] = decide (i.val < 2) := by decide
  apply BitVec.eq_of_getLsbD_eq
  intro i hi
  have := hmask ⟨i - 29, by omega⟩
  simp [field, hi]
  grind

theorem immhi_field (imm : BitVec 64) :
    ((imm.sshiftRight 14).setWidth 32 &&& 0x7ffff : Word) <<< 5 =
      field 5 (((imm.sshiftRight 12).setWidth 21).extractLsb' 2 19) := by
  have hmask : ∀ i : Fin 32, (0x7ffff#32)[i.val] = decide (i.val < 19) := by decide
  apply BitVec.eq_of_getLsbD_eq
  intro i hi
  have := hmask ⟨i - 5, by omega⟩
  simp [field, hi]
  grind

theorem or_right_comm (a b c d : Word) : a ||| b ||| c ||| d = a ||| c ||| d ||| b := by
  ac_rfl

theorem writeRelative4gJump_eq (src dst : Addr 64) :
    funchookWriteRelative4gJump src dst =
      [(Instr.adrp 9 (adrpImm src dst)).encode, (Instr.br 9).encode] := by
  have hbase : (0x90000009 : Word) = 0x90000000 ||| field 0 (9 : Reg) := by decide
  have hbr : (0xd61f0120 : Word) = (Instr.br 9).encode := by decide
  have hadrp : (0x90000009 ||| field 29 ((adrpImm src dst).extractLsb' 0 2) |||
      field 5 ((adrpImm src dst).extractLsb' 2 19) : Word) =
        (Instr.adrp 9 (adrpImm src dst)).encode := by
    rw [hbase, Instr.encode]
    exact or_right_comm _ _ _ _
  rw [← hadrp, ← hbr]
  unfold funchookWriteRelative4gJump
  dsimp only
  rw [immlo_field, immhi_field]
  rfl

/-- The distance of two pages, when it is that of the source and a page less than 2 GB away. -/
theorem page_distance {src dst : Addr 64} (hdst : dst.toNat % 4096 = 0)
    (hrange : -2 ^ 31 ≤ (dst - src).toInt ∧ (dst - src).toInt < 2 ^ 31) :
    (roundDown dst adrpPageSize - roundDown src adrpPageSize).toNat % 4096 = 0 ∧
      -2 ^ 32 ≤ (roundDown dst adrpPageSize - roundDown src adrpPageSize).toInt ∧
        (roundDown dst adrpPageSize - roundDown src adrpPageSize).toInt < 2 ^ 32 := by
  have hd := dst.isLt
  have hs := src.isLt
  have hrd := roundDown_page_toNat dst
  have hrs := roundDown_page_toNat src
  have hsub := BitVec.toNat_sub (roundDown dst adrpPageSize) (roundDown src adrpPageSize)
  have hsub' := BitVec.toNat_sub dst src
  rw [BitVec.toInt_eq_toNat_cond] at hrange ⊢
  split at hrange <;> split <;> omega

/-- The distance of two addresses in pages fits in the 21 bits of an `ADRP`. -/
def inAdrpRange (src dst : Addr 64) : Bool :=
  decide (-2 ^ 32 ≤ (roundDown dst adrpPageSize - roundDown src adrpPageSize).toInt ∧
    (roundDown dst adrpPageSize - roundDown src adrpPageSize).toInt < 2 ^ 32)

theorem roundDown_of_aligned {x : Addr 64} (h : x.toNat % 4096 = 0) :
    roundDown x adrpPageSize = x := by
  apply BitVec.eq_of_toNat_eq
  rw [roundDown_page_toNat]
  omega

/-- **`ADRP`.** In range, the value that the written instruction computes at `src` is `dst`. -/
theorem adrp_value {src dst : Addr 64} (hdst : dst.toNat % 4096 = 0)
    (hrange : inAdrpRange src dst = true) :
    roundDown src adrpPageSize + (adrpImm src dst).signExtend 64 <<< 12 = dst := by
  have haligned : (roundDown dst adrpPageSize - roundDown src adrpPageSize).toNat % 4096 = 0 := by
    have hrd := roundDown_page_toNat dst
    have hrs := roundDown_page_toNat src
    have hs := src.isLt
    rw [BitVec.toNat_sub]
    omega
  rw [adrpImm, signExtend_page haligned (of_decide_eq_true hrange), roundDown_of_aligned hdst,
    BitVec.add_comm, BitVec.sub_add_cancel]

/-- The value that the `ADRP` written at `src` computes. -/
def adrpDest (src dst : Addr 64) : Addr 64 :=
  roundDown src adrpPageSize + (adrpImm src dst).signExtend 64 <<< 12

/-- A signed number of pages that 21 bits hold is less than 4 GB either way. -/
theorem pageOffset_bounds (imm : BitVec 21) :
    -2 ^ 32 ≤ (imm.signExtend 64 <<< 12).toInt ∧ (imm.signExtend 64 <<< 12).toInt < 2 ^ 32 := by
  have hlo := BitVec.le_toInt imm
  have hhi := BitVec.toInt_lt (x := imm)
  have hext : (imm.signExtend 64).toInt = imm.toInt := BitVec.toInt_signExtend_of_le (by decide)
  have hshift : (imm.signExtend 64 <<< 12).toNat = (imm.signExtend 64).toNat * 4096 % 2 ^ 64 := by
    rw [BitVec.toNat_shiftLeft, Nat.shiftLeft_eq]
  rw [BitVec.toInt_eq_toNat_cond] at hext ⊢
  split at hext <;> split <;> omega

/-- **Range of `ADRP`.** The written instruction computes a page-aligned address exactly when the
distance in pages fits. -/
theorem adrpDest_eq_iff {src dst : Addr 64} (hdst : dst.toNat % 4096 = 0) :
    adrpDest src dst = dst ↔ inAdrpRange src dst = true := by
  constructor
  · intro hvalue
    have hdist : roundDown dst adrpPageSize - roundDown src adrpPageSize =
        (adrpImm src dst).signExtend 64 <<< 12 := by
      rw [roundDown_of_aligned hdst]
      calc dst - roundDown src adrpPageSize
        _ = adrpDest src dst - roundDown src adrpPageSize := by rw [hvalue]
        _ = (adrpImm src dst).signExtend 64 <<< 12 := by
          rw [adrpDest, BitVec.add_comm, BitVec.add_sub_cancel]
    rw [inAdrpRange, hdist]
    exact decide_eq_true (pageOffset_bounds _)
  · intro hrange
    exact adrp_value hdst hrange

theorem targetAddr_adrp {src dst : Addr 64} (hdst : dst.toNat % 4096 = 0)
    (hrange : inAdrpRange src dst = true) :
    targetAddr src (Instr.adrp 9 (adrpImm src dst)).encode .adrp = dst := by
  have himm := (A64.decode_adrp (A64.decode_encode (.adrp 9 (adrpImm src dst)))).2
  rw [targetAddr, immAdrOffset_eq, himm]
  exact adrp_value hdst hrange

/-! ## Running the jumps -/

/-- The hook of the entry at `slot`, or its trampoline. -/
def entryHook (slot : Addr 64) (entry : FunchookEntry 64) : Addr 64 :=
  hookOf trampolineOffset slot entry

/-- The patch and the transit code of an entry stand in memory, as after an install. -/
structure CodeLoaded (m : Mem 64) (slot : Addr 64) (entry : FunchookEntry 64) : Prop where
  patch : readBytes m entry.targetFunc (4 * maxPatchCodeSize) = entry.newCode
  transit : readBytes m slot (4 * transitCodeSize) = entry.transit

/-- A call of the target goes through the transit code at `slot` to the hook, or to the prehook
bridge with the address of the transit code in `x10`. -/
structure Dispatches (hookCallerAsm slot : Addr 64) (entry : FunchookEntry 64) : Prop where
  patch : ∀ s : State, CodeLoaded s.mem slot entry → s.pc = entry.targetFunc →
    A64.step s = some ((s.writeX 9 slot).withPc (entry.targetFunc + 4)) ∧
      A64.run 2 s = some ((s.writeX 9 slot).withPc slot)
  hook : entry.prehook = 0 → ∀ s : State, CodeLoaded s.mem slot entry → s.pc = slot →
    A64.run 2 s = some ((s.writeX 9 (entryHook slot entry)).withPc (entryHook slot entry))
  bridge : entry.prehook ≠ 0 → ∀ s : State, CodeLoaded s.mem slot entry → s.pc = slot →
    A64.run 3 s = some (((s.writeX 10 slot).writeX 9 hookCallerAsm).withPc hookCallerAsm)

/-- An entry as `funchook_prepare` fills it before `funchook_fix_code`. -/
structure Filled (entry : FunchookEntry 64) : Prop where
  newCode : entry.newCode.length = 4 * maxPatchCodeSize
  transit : entry.transit.length = 4 * transitCodeSize

variable {hookCallerAsm slot : Addr 64} {entry : FunchookEntry 64}

/-- The patch of an entry stands at its target. -/
def PatchLoaded (m : Mem 64) (entry : FunchookEntry 64) : Prop :=
  readBytes m entry.targetFunc (4 * maxPatchCodeSize) = entry.newCode

theorem fetch_patch (hlen : entry.newCode.length = 4 * maxPatchCodeSize) {s : State}
    (hload : PatchLoaded s.mem (funchookFixCode hookCallerAsm slot entry)) {j : ℕ} {i : Instr}
    (hi : [Instr.adrp 9 (adrpImm entry.targetFunc slot), .br 9][j]? = some i)
    (hpc : s.pc = wordAddr entry.targetFunc j) : s.fetch = i.encode := by
  have hj : j < 2 := (List.getElem?_eq_some_iff.mp hi).1
  have hread : readWord 4 s.mem (wordAddr entry.targetFunc j) =
      bufWord 4 (readBytes s.mem entry.targetFunc (4 * maxPatchCodeSize)) (4 * j) :=
    readWord_eq_bufWord (by simp only [maxPatchCodeSize, rel4gJumpSize]; omega)
  have hword := @bufWord_overwrite_leWords 4 (funchookWriteRelative4gJump entry.targetFunc slot)
    entry.newCode 0 j i.encode
    (by
      rw [writeRelative4gJump_eq]
      exact (List.getElem?_map (f := Instr.encode)).trans (congrArg (Option.map _) hi))
    (by
      rw [hlen, writeRelative4gJump_eq]
      exact Nat.le_refl 8)
  rw [Nat.zero_add] at hword
  rw [A64.State.fetch, hpc, hread, ← hword]
  exact congrArg (bufWord 4 · (4 * j)) hload

/-- The patch leads to the address that its `ADRP` computes, in range or not. -/
theorem run_patch (hlen : entry.newCode.length = 4 * maxPatchCodeSize) {s : State}
    (hload : PatchLoaded s.mem (funchookFixCode hookCallerAsm slot entry))
    (hpc : s.pc = entry.targetFunc) :
    A64.step s = some ((s.writeX 9 (adrpDest entry.targetFunc slot)).withPc
        (entry.targetFunc + 4)) ∧
      A64.run 2 s = some ((s.writeX 9 (adrpDest entry.targetFunc slot)).withPc
        (adrpDest entry.targetFunc slot)) := by
  have hstep₁ : A64.step s = some ((s.writeX 9 (adrpDest entry.targetFunc slot)).withPc
      (entry.targetFunc + 4)) := by
    rw [A64.step_of_fetch (fetch_patch (j := 0) hlen hload rfl (by rw [hpc]; simp [wordAddr])),
      Instr.effect, hpc]
    rfl
  refine ⟨hstep₁, ?_⟩
  have hload₁ : PatchLoaded ((s.writeX 9 (adrpDest entry.targetFunc slot)).withPc
      (entry.targetFunc + 4)).mem (funchookFixCode hookCallerAsm slot entry) := by
    rwa [State.withPc_mem, State.writeX_mem]
  rw [A64.run_succ hstep₁, A64.run_succ (A64.step_of_fetch
    (fetch_patch (j := 1) hlen hload₁ rfl rfl)), A64.run, Instr.effect, State.withPc_readX,
    State.readX_writeX_self _ _ (by decide), State.withPc_withPc]

/-- **The patch.** It leads to the transit code when that is in range. -/
theorem patch_dispatches (hlen : entry.newCode.length = 4 * maxPatchCodeSize)
    (halign : slot.toNat % 4096 = 0) (hrange : inAdrpRange entry.targetFunc slot = true) {s : State}
    (hload : PatchLoaded s.mem (funchookFixCode hookCallerAsm slot entry))
    (hpc : s.pc = entry.targetFunc) :
    A64.step s = some ((s.writeX 9 slot).withPc (entry.targetFunc + 4)) ∧
      A64.run 2 s = some ((s.writeX 9 slot).withPc slot) := by
  have hrun := run_patch hlen hload hpc
  rwa [adrpDest, adrp_value halign hrange] at hrun

theorem absoluteJump_eq (dst : Addr 64) : funchookWriteAbsoluteJump dst regX9 =
    wordBytes [(Instr.ldrLit .x 9 2).encode, (Instr.br 9).encode] ++ leBytes 8 dst := by
  have hregno : toRegno regX9 = .ok 9 := by decide
  have hldr : (0x58000040 : Word) ||| 9 = (Instr.ldrLit .x 9 2).encode := by decide
  have hbr : (0xd61f0120 : Word) ||| toImm 9 = (Instr.br 9).encode := by decide
  rw [funchookWriteAbsoluteJump, hregno]
  dsimp only
  rw [hldr, hbr]

/-- The transit code starts with `code` and holds `literal` at the word `k`. -/
structure TransitHolds (transit : List Byte) (code : List Instr) (k : ℕ) (literal : Addr 64) :
    Prop where
  word : ∀ j i, code[j]? = some i → bufWord 4 transit (4 * j) = i.encode
  literal : bufWord 8 transit (4 * k) = literal

theorem hook_transit (hfilled : Filled entry) (hprehook : entry.prehook = 0) :
    TransitHolds (funchookFixCode hookCallerAsm slot entry).transit [.ldrLit .x 9 2, .br 9] 2
      (entryHook slot entry) := by
  have hcode : (funchookFixCode hookCallerAsm slot entry).transit = overwrite entry.transit 0
      (wordBytes ([.ldrLit .x 9 2, .br 9].map Instr.encode) ++
        leBytes 8 (entryHook slot entry)) := by
    simp only [funchookFixCode, hprehook]
    exact congrArg (overwrite entry.transit 0) (absoluteJump_eq _)
  have hlen : 16 ≤ entry.transit.length := by rw [hfilled.transit]; decide
  rw [hcode]
  refine ⟨fun j i hi => ?_, ?_⟩
  · have hj : j < 2 := (List.getElem?_eq_some_iff.mp hi).1
    have hin := @bufWord_overwrite_of_in 4 entry.transit
      (wordBytes ([.ldrLit .x 9 2, .br 9].map Instr.encode) ++ leBytes 8 (entryHook slot entry))
      0 (4 * j) (by simp [wordBytes]; omega) (by simp [wordBytes]; omega)
    rw [Nat.zero_add] at hin
    rw [hin, bufWord_append_left (by simp [wordBytes]; omega)]
    exact bufWord_leWords ((List.getElem?_map (f := Instr.encode)).trans
      (congrArg (Option.map _) hi))
  · have hin := @bufWord_overwrite_of_in 8 entry.transit
      (wordBytes ([.ldrLit .x 9 2, .br 9].map Instr.encode) ++ leBytes 8 (entryHook slot entry))
      0 8 (by simp [wordBytes]) (by simp [wordBytes]; omega)
    have hlit := bufWord_append_right (n := 8)
      (wordBytes ([.ldrLit .x 9 2, .br 9].map Instr.encode))
      (leBytes 8 (entryHook slot entry)) 0
    rw [bufWord_leBytes] at hlit
    exact hin.trans hlit

theorem bridge_transit (hfilled : Filled entry) (hprehook : entry.prehook ≠ 0) :
    TransitHolds (funchookFixCode hookCallerAsm slot entry).transit
      [.adr 10 0, .ldrLit .x 9 3, .br 9] 4 hookCallerAsm := by
  have hcode : (funchookFixCode hookCallerAsm slot entry).transit =
      overwrite entry.transit 0 (funchookWriteJumpWithPrehook hookCallerAsm) := by
    simp only [funchookFixCode, if_pos hprehook]
  have htemplate : ∀ (j : ℕ) (i : Instr), [Instr.adr 10 0, .ldrLit .x 9 3, .br 9][j]? = some i →
      transitCodeTemplate[j]? = some i.encode := by
    intro j i hi
    match j, hi with
    | 0, hi => cases hi; decide
    | 1, hi => cases hi; decide
    | 2, hi => cases hi; decide
  have hlen : (funchookWriteJumpWithPrehook hookCallerAsm).length = 24 := by
    simp [funchookWriteJumpWithPrehook, wordBytes, transitCodeTemplate]
  have hbuf : 0 + (funchookWriteJumpWithPrehook hookCallerAsm).length ≤ entry.transit.length := by
    rw [hlen, hfilled.transit]
    decide
  rw [hcode]
  refine ⟨fun j i hi => ?_, ?_⟩
  · have hj : j < 3 := (List.getElem?_eq_some_iff.mp hi).1
    have hin := @bufWord_overwrite_of_in 4 _ _ 0 (4 * j) (by rw [hlen]; omega) hbuf
    rw [Nat.zero_add] at hin
    rw [hin, funchookWriteJumpWithPrehook, bufWord_overwrite_of_out (Or.inl (by
      simp only [transitHookCallerAddr]; omega))]
    exact bufWord_leWords (htemplate j i hi)
  · have hin := @bufWord_overwrite_of_in 8 _ _ 0 16 (by omega) hbuf
    exact hin.trans (bufWord_overwrite (n := 8) hookCallerAsm
      (by simp [wordBytes, transitCodeTemplate, transitHookCallerAddr]))

/-- A word of the transit code is fetched at its address. -/
theorem fetch_transit {e : FunchookEntry 64} {code : List Instr} {k : ℕ} {literal : Addr 64}
    (hholds : TransitHolds e.transit code k literal) (hsmall : code.length ≤ transitCodeSize)
    {s : State} (hload : CodeLoaded s.mem slot e) {j : ℕ} {i : Instr} (hi : code[j]? = some i)
    (hpc : s.pc = wordAddr slot j) : s.fetch = i.encode := by
  have hj : j < code.length := (List.getElem?_eq_some_iff.mp hi).1
  rw [A64.State.fetch, hpc, wordAddr, readWord_eq_bufWord (N := 4 * transitCodeSize) (by omega),
    hload.transit, hholds.word j i hi]

theorem read_literal {e : FunchookEntry 64} {code : List Instr} {k : ℕ} {literal : Addr 64}
    (hholds : TransitHolds e.transit code k literal) (hk : k + 2 ≤ transitCodeSize) {m : Mem 64}
    (hload : CodeLoaded m slot e) : readWord 8 m (wordAddr slot k) = literal := by
  rw [wordAddr, readWord_eq_bufWord (N := 4 * transitCodeSize) (by omega), hload.transit,
    hholds.literal]

/-- `ldr x9` of the literal at the word `k`, and `br x9`, from the word `j`. -/
theorem run_literal_jump {e : FunchookEntry 64} {code : List Instr} {k j : ℕ} {literal : Addr 64}
    (hholds : TransitHolds e.transit code k literal) (hsmall : code.length ≤ transitCodeSize)
    (hk : k + 2 ≤ transitCodeSize) {imm : BitVec 19} (hldr : code[j]? = some (.ldrLit .x 9 imm))
    (hbr : code[j + 1]? = some (.br 9)) (himm : wordOffset imm = BitVec.ofNat 64 (4 * (k - j)))
    (hjk : j ≤ k) {s : State} (hload : CodeLoaded s.mem slot e) (hpc : s.pc = wordAddr slot j) :
    A64.run 2 s = some ((s.writeX 9 literal).withPc literal) := by
  have hstep₁ : A64.step s = some ((s.writeX 9 literal).withPc (wordAddr slot (j + 1))) := by
    rw [A64.step_of_fetch (fetch_transit hholds hsmall hload hldr hpc), Instr.effect, A64.load,
      hpc, himm, wordAddr_add, wordAddr_succ, Nat.add_sub_cancel' hjk, read_literal hholds hk hload]
  have hload₁ : CodeLoaded ((s.writeX 9 literal).withPc (wordAddr slot (j + 1))).mem slot e := by
    rwa [State.withPc_mem, State.writeX_mem]
  rw [A64.run_succ hstep₁, A64.run_succ (A64.step_of_fetch
    (fetch_transit hholds hsmall hload₁ hbr rfl)), A64.run, Instr.effect, State.withPc_readX,
    State.readX_writeX_self _ _ (by decide), State.withPc_withPc]

theorem wordAddr_zero (p : Addr 64) : wordAddr p 0 = p := by
  simp [wordAddr]

/-- **Dispatch.** The code that `funchook_fix_code` writes for an entry in range is exact. -/
theorem fixCode_dispatches (hfilled : Filled entry) (halign : slot.toNat % 4096 = 0)
    (hrange : inAdrpRange entry.targetFunc slot = true) :
    Dispatches hookCallerAsm slot (funchookFixCode hookCallerAsm slot entry) where
  patch := fun s hload hpc => patch_dispatches hfilled.newCode halign hrange hload.patch hpc
  hook := fun hprehook s hload hpc =>
    run_literal_jump (j := 0) (hook_transit hfilled hprehook) (by decide) (by decide) rfl rfl
      (by decide) (by decide) hload (by rw [hpc, wordAddr_zero])
  bridge := by
    intro hprehook s hload hpc
    have hholds := @bridge_transit hookCallerAsm slot entry hfilled hprehook
    have hfetch := fetch_transit hholds (by decide) hload (j := 0) rfl (by rw [hpc, wordAddr_zero])
    have hstep : A64.step s = some ((s.writeX 10 slot).withPc (wordAddr slot 1)) := by
      rw [A64.step_of_fetch hfetch, Instr.effect, hpc]
      simp [wordAddr]
    rw [A64.run_succ hstep, run_literal_jump (j := 1) hholds (by decide) (by decide) rfl rfl
      (by decide) (by decide) (by rwa [State.withPc_mem, State.writeX_mem]) rfl,
      A64.writeX_withPc, State.withPc_withPc]

/-! ## Pages of the Unix allocator -/

open Unix (safeJumpDistance funchookPageAlloc funchookPageAlloc_safe safeJumpDistance_near
  PageAllocEnv)

/-- The `ADRP` that `funchook_write_relative_4g_jump` writes. -/
def writtenAdrp (src dst : Addr 64) : Word := (funchookWriteRelative4gJump src dst).headD 0

/-- The page sizes for which `INT32_MAX - page_size` does not wrap: `2^12` to `2^30`. -/
structure OsPageSize (pageSize : Addr 64) (log : ℕ) : Prop where
  lower : 12 ≤ log
  upper : log ≤ 30
  size : pageSize.toNat = 2 ^ log

/-- An address within a safe distance is in range of `ADRP`. -/
theorem inAdrpRange_of_safe {pageSize src dst : Addr 64} {log : ℕ}
    (hpage : OsPageSize pageSize log) (haligned : dst.toNat % 2 ^ log = 0)
    (h : safeJumpDistance pageSize src dst = true ∨ safeJumpDistance pageSize dst src = true) :
    dst.toNat % 4096 = 0 ∧ inAdrpRange src dst = true := by
  have hsmall : pageSize.toNat ≤ 2 ^ 30 := by
    rw [hpage.size]
    exact Nat.pow_le_pow_right (by decide) hpage.upper
  have hdvd : 2 ^ 12 ∣ 2 ^ log := Nat.pow_dvd_pow 2 hpage.lower
  have hdst : dst.toNat % 4096 = 0 :=
    Nat.mod_eq_zero_of_dvd (Nat.dvd_trans hdvd (Nat.dvd_of_mod_eq_zero haligned))
  exact ⟨hdst, decide_eq_true (page_distance hdst (safeJumpDistance_near pageSize hsmall h)).2⟩

theorem writtenAdrp_eq (src dst : Addr 64) :
    writtenAdrp src dst = (Instr.adrp 9 (adrpImm src dst)).encode := by
  rw [writtenAdrp, writeRelative4gJump_eq]
  rfl

/-- **Dispatch on Unix.** For a page that `funchook_page_alloc` returns, the code written for an
entry at the start of the page is exact; and `target_addr` reads back every page-aligned address
within a safe distance. -/
theorem unix_page_dispatches {pageSize : Addr 64} {log : ℕ} (hpage : OsPageSize pageSize log) :
    (∀ (env : PageAllocEnv) (func page hookCallerAsm : Addr 64) (entry : FunchookEntry 64),
      (funchookPageAlloc pageSize env func).2 = .ok page → page.toNat % 2 ^ log = 0 →
        Filled entry → entry.targetFunc = func →
          Dispatches hookCallerAsm page (funchookFixCode hookCallerAsm page entry)) ∧
      ∀ src dst : Addr 64, dst.toNat % 2 ^ log = 0 →
        safeJumpDistance pageSize src dst = true ∨ safeJumpDistance pageSize dst src = true →
          targetAddr src (writtenAdrp src dst) .adrp = dst := by
  constructor
  · rintro env func page hookCallerAsm entry halloc haligned hfilled rfl
    obtain ⟨hdst, hrange⟩ :=
      inAdrpRange_of_safe hpage haligned (funchookPageAlloc_safe pageSize halloc)
    exact fixCode_dispatches hfilled hdst hrange
  · intro src dst haligned hsafe
    obtain ⟨hdst, hrange⟩ := inAdrpRange_of_safe hpage haligned hsafe
    rw [writtenAdrp_eq]
    exact targetAddr_adrp hdst hrange

/-- A program of four pages at `0x400000`, with the page behind it free. -/
def sampleUnixEnv : PageAllocEnv where
  maps := fun _ => .ok [⟨0x400000, 0x404000⟩]
  mmapBefore := fun _ => ⟨0x3ff000, ""⟩
  mmapAfter := fun _ => ⟨0x404000, ""⟩

/-- The function at `0x401000`, with a hook out of the reach of a branch. -/
def sampleUnixEntry : FunchookEntry 64 where
  transit := List.replicate (4 * transitCodeSize) 0
  originalTargetFunc := 0x401000
  targetFunc := 0x401000
  hookFunc := 0x7ff600001000
  prehook := 0
  userData := 0
  flags := 0
  patchCodeSize := 0
  trampoline := List.replicate (4 * trampolineSize) 0
  oldCode := List.replicate (4 * maxPatchCodeSize) 0
  newCode := List.replicate (4 * maxPatchCodeSize) 0

theorem unix_page_dispatches_sample :
    (funchookPageAlloc 0x1000 sampleUnixEnv 0x401000).2 = .ok 0x404000 ∧
      Dispatches 0x300000 0x404000 (funchookFixCode 0x300000 0x404000 sampleUnixEntry) ∧
      targetAddr 0x401000 (writtenAdrp 0x401000 0x404000) .adrp = 0x404000 := by
  have hpage : OsPageSize 0x1000 12 := ⟨Nat.le_refl 12, by decide, rfl⟩
  obtain ⟨hpages, hread⟩ := unix_page_dispatches hpage
  refine ⟨rfl, hpages sampleUnixEnv 0x401000 0x404000 0x300000 sampleUnixEntry rfl (by decide)
    ⟨List.length_replicate, List.length_replicate⟩ rfl, ?_⟩
  exact hread 0x401000 0x404000 (by decide) (Or.inr (by decide))

/-- With pages of `2^31` bytes the limit wraps and every distance is accepted. -/
def hugePageEnv : PageAllocEnv where
  maps := fun _ => .ok [⟨0x80000000, 0x100000000⟩]
  mmapBefore := fun _ => ⟨0x20000000000, ""⟩
  mmapAfter := fun _ => ⟨0x20000000000, ""⟩

theorem huge_page_not_reached :
    (funchookPageAlloc 0x80000000 hugePageEnv 0xfffff000).2 = .ok 0x20000000000 ∧
      (0x20000000000 : Addr 64).toNat % 2 ^ 31 = 0 ∧
      targetAddr 0xfffff000 (writtenAdrp 0xfffff000 0x20000000000) .adrp ≠ 0x20000000000 := by
  decide +kernel

end Funchook.Arm64
