import Funchook.Lib.ByteCode
import Funchook.Lib.Ia32

/-!
# The subset of 64-bit mode as a machine that runs bytes

An instruction is recognized by its own bytes, and only its PC-relative operand depends on where it
stands. One step of the machine is one step of the subset.
-/

namespace Ia32

open ByteMemory
open ByteCode (Machine SameOff)

variable {w : ℕ}

/-- What an instruction does when its PC-relative operand counts from `base` and `next` is the
address of the one that follows it. -/
def Instr.effectAt (base next : BitVec w) (s : State w) : Instr → State w
  | .jmpRel rel => s.withIp (base + rel.signExtend w)
  | .callRel rel =>
    let sp := s.sp - BitVec.ofNat w (w / 8)
    { (s.writeReg 4 sp).withIp (base + rel.signExtend w) with mem := writePtr s.mem sp next }
  | .jmpMemIp disp => s.withIp (readPtr s.mem (base + disp.signExtend w))
  | .leaIp dst disp => (s.writeReg dst (base + disp.signExtend w)).withIp next
  | i => i.effect next s

theorem effectAt_self (i : Instr) (next : BitVec w) (s : State w) :
    i.effectAt next next s = i.effect next s := by
  cases i <;> rfl

theorem effectAt_withIp (i : Instr) (base next : BitVec w) (s : State w) (p : BitVec w) :
    i.effectAt base next (s.withIp p) = i.effectAt base next s := by
  cases i <;> rfl

/-- **An instruction is recognized by its own bytes.** -/
theorem decode_local {bytes bytes' : List Byte} {i : Instr} {n : ℕ}
    (h : decode true bytes = some (i, n)) (hsame : ∀ j < n, bytes'[j]? = bytes[j]?) :
    decode true bytes' = some (i, n) := by
  have hword : ∀ k, k + 4 ≤ n → bufWord 4 bytes' k = bufWord 4 bytes k := fun k hk =>
    leWord_congr fun j hj => by rw [hsame (k + j) (by omega)]
  unfold decode at h ⊢
  dsimp only at h ⊢
  simp only [if_true] at h ⊢
  split at h
  · rename_i hnop
    cases h
    simp only [hsame 0 (by decide), hnop, if_true]
  rename_i hnop
  split at h
  · rename_i hret
    cases h
    simp only [hsame 0 (by decide), if_neg hnop, if_pos hret]
  rename_i hret
  split at h
  · rename_i hjmp
    cases h
    simp only [hsame 0 (by decide), if_neg hnop, if_neg hret, if_pos hjmp, hword 1 (by decide)]
  rename_i hjmp
  split at h
  · rename_i hcall
    cases h
    simp only [hsame 0 (by decide), if_neg hnop, if_neg hret, if_neg hjmp, if_pos hcall,
      hword 1 (by decide)]
  rename_i hcall
  split at h
  · rename_i hgroup
    split at h
    · rename_i hmem
      cases h
      simp only [hsame 0 (by decide), hsame 1 (by decide), if_neg hnop, if_neg hret, if_neg hjmp,
        if_neg hcall, if_pos hgroup, if_pos hmem, hword 2 (by decide)]
    · cases h
  rename_i hgroup
  split at h
  · rename_i hlea
    cases h
    simp only [hsame 0 (by decide), hsame 1 (by decide), hsame 2 (by decide), if_neg hnop,
      if_neg hret, if_neg hjmp, if_neg hcall, if_neg hgroup, if_pos hlea, hword 3 (by decide)]
  · cases h

/-- The bytes of an instruction that were fetched. -/
theorem decode_size_le {bytes : List Byte} {i : Instr} {n : ℕ}
    (h : decode true bytes = some (i, n)) : n ≤ maxInsnLen := by
  unfold decode at h
  dsimp only at h
  simp only [if_true] at h
  repeat' split at h
  all_goals cases h <;> decide

/-- The machine of 64-bit mode. -/
def machine (w : ℕ) : Machine w (State w) where
  ip s := s.ip
  mem s := s.mem
  withIp s p := s.withIp p
  window := maxInsnLen
  insnLen bytes := (decode true bytes).map Prod.snd
  exec bytes base next s := (decode true bytes).map fun d => d.1.effectAt base next s
  ip_withIp _ _ := rfl
  mem_withIp _ _ := rfl
  withIp_self _ := rfl
  insnLen_append := by
    intro bytes rest h
    obtain ⟨⟨i, n⟩, hdecode, rfl⟩ := Option.map_eq_some_iff.mp h
    have hlocal := @decode_local bytes (bytes ++ rest) i bytes.length hdecode fun j hj =>
      List.getElem?_append_left hj
    rw [hlocal]
    rfl
  exec_withIp bytes base next s p := by
    cases decode true bytes with
    | none => rfl
    | some d => exact congrArg some (effectAt_withIp d.1 base next s p)

theorem machine_step (s : State w) : (machine w).step s = step true s := by
  unfold Machine.step step
  show ((decode true (readBytes s.mem s.ip maxInsnLen)).map Prod.snd).bind _ = _
  cases hdecode : decode true (readBytes s.mem s.ip maxInsnLen) with
  | none => rfl
  | some d =>
    obtain ⟨i, n⟩ := d
    have hle := decode_size_le hdecode
    have hread : decode true (readBytes s.mem s.ip n) = some (i, n) := by
      rw [← take_readBytes s.mem s.ip hle]
      exact decode_local hdecode fun j hj => List.getElem?_take_of_lt hj
    show (decode true (readBytes s.mem s.ip n)).map _ = _
    rw [hread]
    exact congrArg some (effectAt_self i _ s)

/-! ## The instructions -/

section Instructions

variable {i : Instr}

theorem machine_isInsn (h : i.valid true = true) : (machine w).IsInsn i.encode := by
  have hdecode := decode_encode h []
  rw [List.append_nil] at hdecode
  refine ⟨?_, (encode_length i).symm ▸ size_le i⟩
  show (decode true i.encode).map Prod.snd = some i.encode.length
  rw [hdecode, encode_length]
  rfl

theorem machine_exec (h : i.valid true = true) (base next : BitVec w) (s : State w) :
    (machine w).exec i.encode base next s = some (i.effectAt base next s) := by
  have hdecode := decode_encode h []
  rw [List.append_nil] at hdecode
  show (decode true i.encode).map _ = _
  rw [hdecode]
  rfl

/-- An instruction without PC-relative operand. -/
theorem machine_absolute (h : i.valid true = true)
    (heffect : ∀ (base base' next : BitVec w) (s : State w),
      i.effectAt base next s = i.effectAt base' next s) : (machine w).Absolute i.encode := by
  intro base base' next s
  rw [machine_exec h, machine_exec h, heffect base base']

/-- Instructions that end with the displacement of their PC-relative operand. -/
theorem machine_relative {head : List Byte} {insn : BitVec 32 → Instr}
    (hencode : ∀ disp, (insn disp).encode = head ++ leBytes 4 disp)
    (hvalid : ∀ disp, (insn disp).valid true = true)
    (heffect : ∀ (disp disp' : BitVec 32) (base base' next : BitVec w) (s : State w),
      base + disp.signExtend w = base' + disp'.signExtend w →
        (insn disp).effectAt base next s = (insn disp').effectAt base' next s)
    (disp : BitVec 32) : (machine w).Relative (insn disp).encode head.length := by
  have hfield : ∀ bytes', SameOff head.length (insn disp).encode bytes' →
      bytes' = (insn (bufWord 4 bytes' head.length)).encode := fun bytes' hsame => by
    rw [hencode] at hsame ⊢
    exact hsame.eq_append
  have hword : bufWord 4 (insn disp).encode head.length = disp := by
    rw [hencode]
    exact (bufWord_append_right head (leBytes 4 disp) 0).trans (@bufWord_leBytes 4 disp)
  constructor
  · intro bytes' hsame
    rw [hfield bytes' hsame]
    exact machine_isInsn (hvalid _)
  · intro bytes' hsame base base' next s htarget
    rw [hword] at htarget
    rw [hfield bytes' hsame, machine_exec (hvalid _), machine_exec (hvalid _)]
    exact congrArg some (heffect disp _ base base' next s htarget)

theorem jmpRel_relative (rel : BitVec 32) :
    (machine w).Relative (Instr.jmpRel rel).encode 1 :=
  @machine_relative w [0xe9] .jmpRel (fun _ => rfl) (fun _ => rfl)
    (fun _ _ _ _ _ s h => congrArg s.withIp h) rel

end Instructions

end Ia32
