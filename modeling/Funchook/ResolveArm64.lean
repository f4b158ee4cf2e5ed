import Funchook.BackJumpArm64
import Funchook.ImportTable

/-!
# Import thunks on AArch64 (`os_windows.c`)

`funchook_resolve_func` of the Windows build follows a thunk of three instructions, `ADRP`, `LDR`
and `BR`, to the function in the import table of its module. It takes the immediate of the `ADRP`
apart by itself and does not extend its sign, as `target_addr` of `arch_arm64.c` does.
-/

namespace Funchook.Arm64

open ByteMemory A64
open Windows

/-! ## The thunk -/

def adrpXip0 : Word := 0x90000010
def adrpXip0Mask : Word := 0x9f00001f
def adrpXip0Immlo : Word := 0x60000000
def adrpXip0Immhi : Word := 0x00ffffe0
def ldrXip0 : Word := 0xf9400210
def ldrXip0Mask : Word := 0xffc003ff
def ldrXip0Imm12 : Word := 0x003ffc00
def brXip0 : Word := 0xd61f0200

/-- `pos`, for the address of the thunk and its first two words. -/
def thunkPos (fn : Addr 64) (adrp ldr : Word) : Addr 64 :=
  -- the mask is an `int`, so its sign is extended
  let addr := fn &&& (~~~((1#32 <<< 12) - 1)).signExtend 64
  let immhi := ((adrp &&& adrpXip0Immhi).setWidth 64 >>> 5) <<< (12 + 2)
  let immlo := ((adrp &&& adrpXip0Immlo).setWidth 64 >>> 29) <<< 12
  let imm12 := ((ldr &&& ldrXip0Imm12).setWidth 64 >>> 10) <<< 3
  addr + immhi + immlo + imm12

/-- The address of the import slot, when the three words at `fn` are a thunk. -/
def importSlot (m : Mem 64) (fn : Addr 64) : Option (Addr 64) :=
  if insnAt m fn 0 &&& adrpXip0Mask = adrpXip0 ∧ insnAt m fn 1 &&& ldrXip0Mask = ldrXip0 ∧
      insnAt m fn 2 = brXip0 then
    some (thunkPos fn (insnAt m fn 0) (insnAt m fn 1))
  else none

/-- `funchook_resolve_func`; `none` when the loops over the import table have not ended after `fuel`
rounds. -/
def windowsResolveFunc (m : Mem 64) (moduleOf : Addr 64 → Option (Addr 64)) (fuel : ℕ)
    (func : Addr 64) : Option (Addr 64) :=
  resolveImport m moduleOf fuel ((importSlot m func).getD 0) func

/-! ## The two decoders -/

/-- The address that a thunk loads from: the page of the `ADRP` and the scaled offset. -/
def loadedFrom (m : Mem 64) (fn : Addr 64) : Addr 64 :=
  targetAddr fn (insnAt m fn 0) .adrp + ((insnAt m fn 1).extractLsb' 10 12).setWidth 64 <<< 3

/-- The bits of the masks of the three fields. -/
theorem getLsbD_thunkMasks (i : Fin 32) :
    adrpXip0Immhi.getLsbD i = decide (5 ≤ i.val ∧ i.val < 5 + 19) ∧
      adrpXip0Immlo.getLsbD i = decide (29 ≤ i.val ∧ i.val < 29 + 2) ∧
        ldrXip0Imm12.getLsbD i = decide (10 ≤ i.val ∧ i.val < 10 + 12) := by
  revert i
  decide

/-- A mask and a shift take out a field. -/
theorem maskedField {mask : Word} {start len : ℕ}
    (hmask : ∀ i : Fin 32, mask.getLsbD i = decide (start ≤ i.val ∧ i.val < start + len))
    (hfits : start + len ≤ 32) (x : Word) :
    (x &&& mask).setWidth 64 >>> start = (x.extractLsb' start len).setWidth 64 := by
  apply BitVec.eq_of_getLsbD_eq
  intro i hi
  rw [BitVec.getLsbD_ushiftRight, BitVec.getLsbD_setWidth, BitVec.getLsbD_and,
    BitVec.getLsbD_setWidth, BitVec.getLsbD_extractLsb']
  by_cases hin : start + i < 32
  · have hbit := hmask ⟨start + i, hin⟩
    rw [hbit]
    by_cases hlen : i < len
    · simp [hlen, hi, show start + i < 64 by omega]
    · simp [hlen]
  · have hlen : ¬ i < len := by omega
    simp [hlen, BitVec.getLsbD_of_ge x (start + i) (by omega)]

/-- The immediate of an `ADRP` as the two fields give it, without its sign. -/
theorem thunkImm (hi : BitVec 19) (lo : BitVec 2) :
    hi.setWidth 64 <<< (12 + 2) + lo.setWidth 64 <<< 12 = (hi ++ lo).setWidth 64 <<< 12 := by
  have hhi := hi.isLt
  have hlo := lo.isLt
  have happend : (hi ++ lo).toNat = hi.toNat * 4 + lo.toNat := by
    rw [BitVec.toNat_append, ← Nat.shiftLeft_add_eq_or_of_lt hlo, Nat.shiftLeft_eq]
  apply BitVec.eq_of_toNat_eq
  simp only [BitVec.toNat_add, BitVec.toNat_shiftLeft, BitVec.toNat_setWidth, Nat.shiftLeft_eq,
    happend]
  omega

theorem thunkPos_eq (fn : Addr 64) (adrp ldr : Word) :
    thunkPos fn adrp ldr = roundDown fn adrpPageSize +
      (adrp.extractLsb' 5 19 ++ adrp.extractLsb' 29 2).setWidth 64 <<< 12 +
        (ldr.extractLsb' 10 12).setWidth 64 <<< 3 := by
  have hpage : (~~~((1#32 <<< 12) - 1)).signExtend 64 = ~~~(adrpPageSize - 1) := by decide
  unfold thunkPos
  dsimp only
  rw [hpage, maskedField (fun i => (getLsbD_thunkMasks i).1) (by decide),
    maskedField (fun i => (getLsbD_thunkMasks i).2.1) (by decide),
    maskedField (fun i => (getLsbD_thunkMasks i).2.2) (by decide), ← thunkImm,
    ← BitVec.add_assoc]
  rfl

/-- A shifted immediate has lost its sign, unless that is positive. -/
theorem unsigned_eq_signed_iff (imm : BitVec 21) :
    imm.setWidth 64 <<< 12 = imm.signExtend 64 <<< 12 ↔ imm.msb = false := by
  constructor
  · intro h
    -- bit 33 is the one behind the immediate
    have hbit := congrArg (fun x => x.getLsbD (12 + 21)) h
    simp only [BitVec.getLsbD_shiftLeft, BitVec.getLsbD_setWidth, BitVec.getLsbD_signExtend] at hbit
    simpa using hbit.symm
  · intro h
    rw [BitVec.signExtend_eq_setWidth_of_msb_false h]

theorem importSlot_eq_some {m : Mem 64} {fn pos : Addr 64} (h : importSlot m fn = some pos) :
    insnAt m fn 0 &&& adrpXip0Mask = adrpXip0 ∧
      pos = thunkPos fn (insnAt m fn 0) (insnAt m fn 1) := by
  unfold importSlot at h
  split at h
  · rename_i hwords
    exact ⟨hwords.1, (Option.some.inj h).symm⟩
  · cases h

/-- The sign of the immediate decides. -/
theorem slot_eq_loadedFrom_iff {m : Mem 64} {fn pos : Addr 64} (h : importSlot m fn = some pos) :
    pos = loadedFrom m fn ↔ (insnAt m fn 0).getLsbD 23 = false := by
  have hmsb : ((insnAt m fn 0).extractLsb' 5 19 ++ (insnAt m fn 0).extractLsb' 29 2).msb =
      (insnAt m fn 0).getLsbD 23 := by
    rw [BitVec.msb_eq_getLsbD_last, BitVec.getLsbD_append, if_neg (by decide),
      BitVec.getLsbD_extractLsb']
    rfl
  rw [(importSlot_eq_some h).2, thunkPos_eq, loadedFrom, targetAddr, immAdrOffset_eq,
    BitVec.add_left_inj, BitVec.add_right_inj, unsigned_eq_signed_iff, hmsb]

/-- **The two decoders** agree on a thunk exactly when its `ADRP` does not go backwards. -/
theorem importSlot_eq_loadedFrom_iff {m : Mem 64} {fn pos : Addr 64}
    (h : importSlot m fn = some pos) :
    pos = loadedFrom m fn ↔ (insnAt m fn 0).getLsbD 23 = false :=
  slot_eq_loadedFrom_iff h

/-- Three instructions at `0x140003000` that load from the page before. -/
def sampleThunk : Mem 64 :=
  write (fun _ => 0) 0x140003000
    [0xf0, 0xff, 0xff, 0xf0,   -- adrp x16, 0x140002000
     0x10, 0x02, 0x40, 0xf9,   -- ldr x16, [x16]
     0x00, 0x02, 0x1f, 0xd6]   -- br x16

/-- The slot of a thunk that goes backwards is looked for 8 GB above. -/
theorem importSlot_backwards :
    ¬ ∀ (m : Mem 64) (fn pos : Addr 64), importSlot m fn = some pos → pos = loadedFrom m fn := by
  intro h
  have heq := h sampleThunk 0x140003000 0x340002000 (by decide +kernel)
  revert heq
  decide +kernel

/-- The same with the page behind, as in a library that lies in front of its import table. -/
def sampleForwardThunk : Mem 64 :=
  write (fun _ => 0) 0x140003000
    [0x10, 0x00, 0x00, 0xb0,   -- adrp x16, 0x140004000
     0x10, 0x06, 0x40, 0xf9,   -- ldr x16, [x16, #8]
     0x00, 0x02, 0x1f, 0xd6]   -- br x16

theorem importSlot_eq_loadedFrom_iff_sample :
    ((0x340002000 : Addr 64) = loadedFrom sampleThunk 0x140003000 ↔
      (insnAt sampleThunk 0x140003000 0).getLsbD 23 = false) ∧
    (0x140004008 : Addr 64) = loadedFrom sampleForwardThunk 0x140003000 := by
  constructor
  · exact importSlot_eq_loadedFrom_iff (by decide +kernel)
  · have hslot : importSlot sampleForwardThunk 0x140003000 = some 0x140004008 := by decide +kernel
    exact (importSlot_eq_loadedFrom_iff hslot).mpr (by decide +kernel)

/-! ## What is resolved -/

/-- **Resolving a thunk.** The search ends, with the function in the import slot that was computed
or with the function itself; when the `ADRP` does not go backwards, the function in the slot is the
one that the thunk loads. -/
theorem windowsResolveFunc_found {m : Mem 64} {moduleOf : Addr 64 → Option (Addr 64)}
    {func : Addr 64} (hends : ∀ hMod desc, moduleOf func = some hMod →
      getImageImportDescriptor m hMod = some desc → ImportsEnd m hMod desc) :
    ∃ f rounds, (∀ fuel, rounds ≤ fuel → windowsResolveFunc m moduleOf fuel func = some f) ∧
      (f = func ∨ ∃ pos, importSlot m func = some pos ∧ f = readPtr m pos ∧
        ((insnAt m func 0).getLsbD 23 = false → f = readPtr m (loadedFrom m func))) := by
  obtain ⟨f, rounds, hruns, hfound⟩ := resolveImport_found ((importSlot m func).getD 0) hends
  refine ⟨f, rounds, hruns, ?_⟩
  rcases hfound with ⟨himported, rfl⟩ | ⟨-, rfl⟩
  · right
    cases hslot : importSlot m func with
    | none =>
      rw [hslot] at himported
      exact absurd rfl himported.1
    | some pos =>
      refine ⟨pos, rfl, rfl, fun hbit => ?_⟩
      rw [Option.getD_some, (slot_eq_loadedFrom_iff hslot).mpr hbit]
  · exact Or.inl rfl

end Funchook.Arm64
