import Funchook.TrampolineX86

/-!
# When a returned trampoline is in bounds (x86 and x86-64)

Every write of `funchookMakeTrampoline` stays inside the trampoline, for any decoder. The loop
leaves by the jump back to the function, and then the two displacements lie where
`funchookFixCode` may write them, or because the decoder stops before the fifth byte. In that case
the function is accepted when `nop` bytes follow, but no jump back has been written and `disp[0]`
is still zero, so the patch has no size that makes sense.
-/

namespace Funchook.X86

open ByteMemory

variable {w : ℕ}

/-! ## What is written, and what is returned -/

/-- The writes of the loop to the trampoline, as offsets and lengths, in the order of the loop. -/
def loopWrites (cpu : Cpu) (m : Mem w) (func : Addr w) :
    List (Insn w) → MakeTrampolineContext w → List (ℕ × ℕ)
  | [], _ => []
  | insn :: rest, ctx =>
    match handleX86GetPcThunk cpu m func ctx insn with
    | some ctx' =>
      (ctx.dst, 5) ::
        if ctx'.src ≥ rel2gJumpSize then [(ctx'.dst, 1)] else loopWrites cpu m func rest ctx'
    | none =>
      match handleX86GetPcByCallAndPop cpu m func ctx insn with
      | some ctx' =>
        (ctx.dst, 5) ::
          match rest with
          | [] => if ctx'.src ≥ rel2gJumpSize then [(ctx'.dst, 1)] else []
          | _ :: rest =>
            if ctx'.src ≥ rel2gJumpSize then [(ctx'.dst, 1)] else loopWrites cpu m func rest ctx'
      | none =>
        (ctx.dst, insn.size) ::
          match moveInsn m func ctx insn with
          | .error _ => []
          | .ok ctx' =>
            if ctx'.src ≥ rel2gJumpSize then [(ctx'.dst, 1)] else loopWrites cpu m func rest ctx'

/-- All writes to the trampoline: the fill with `nop`, and those of the loop. -/
def trampolineWrites (cpu : Cpu) (m : Mem w) (func : Addr w) (insns : List (Insn w)) :
    List (ℕ × ℕ) :=
  (0, trampolineSize) :: loopWrites cpu m func insns .init

/-- The buffer becomes another one by code that is written to `writes` in turn. -/
def WritesTo (buf buf' : List Byte) (writes : List (ℕ × ℕ)) : Prop :=
  ∃ codes : List (ℕ × List Byte), codes.map (fun c => (c.1, c.2.length)) = writes ∧
    codes.foldl (fun buf c => overwrite buf c.1 c.2) buf = buf'

/-- The displacement is written inside the trampoline, in front of where it counts from. -/
def IpDisplacementEntry.InBounds (d : IpDisplacementEntry w) : Prop :=
  d.posOffset + 4 ≤ d.srcAddrOffset ∧ d.srcAddrOffset ≤ trampolineSize

/-- What `funchookFixCode` needs of a trampoline that was returned. -/
structure PatchInBounds (func : Addr w) (ctx : MakeTrampolineContext w) : Prop where
  lower : rel2gJumpSize ≤ (ctx.ripDisp.disp0.dstAddr - func).toNat
  upper : (ctx.ripDisp.disp0.dstAddr - func).toNat ≤ maxPatchCodeSize
  disp0 : ctx.ripDisp.disp0.InBounds
  disp1 : ctx.ripDisp.disp1.dstAddr ≠ 0 → ctx.ripDisp.disp1.InBounds
  moved : ctx.dst ≤ ctx.ripDisp.disp0.posOffset

/-- An instruction has 1 to 15 bytes, and a PC-relative field of 32 bits lies behind an opcode byte
and inside its instruction. -/
structure InsnFits (insn : Insn w) : Prop where
  size_pos : 1 ≤ insn.size
  size_le : insn.size ≤ 15
  disp : insn.relDisp.size = 32 → 1 ≤ insn.relDisp.offset ∧ insn.relDisp.offset + 4 ≤ insn.size
  imm : insn.relImm.size = 32 → 1 ≤ insn.relImm.offset ∧ insn.relImm.offset + 4 ≤ insn.size

/-- The decoder stops before the fifth byte, nothing before that byte keeps the loop from moving
it, and the bytes up to the fifth are `nop`. -/
structure PaddedWithNops (cpu : Cpu) (m : Mem w) (func : Addr w) (insns : List (Insn w)) :
    Prop where
  short : totalSize insns < rel2gJumpSize
  nops : nopsContinue m func (totalSize insns) = true
  movable : ∀ insn ∈ insns, insn.relDisp.size = 0 ∧ insn.relImm.size = 0
  idiom : NoGetPcIdiom cpu m func insns

/-! ## Rounds of the loop -/

/-- Before a round: as many bytes written as read, fewer than five, and nothing to fix. -/
structure RoundStart (ctx : MakeTrampolineContext w) : Prop where
  dst : ctx.dst = ctx.src
  src : ctx.src < 5
  ripDisp : ctx.ripDisp = .zero

theorem roundStart_init : RoundStart (.init : MakeTrampolineContext w) :=
  ⟨rfl, Nat.zero_lt_succ 4, rfl⟩

/-- A matched idiom writes five bytes and leaves the displacements alone. -/
structure IdiomDone (ctx ctx' : MakeTrampolineContext w) : Prop where
  dst : ctx'.dst = ctx.dst + 5
  lower : 5 ≤ ctx'.src
  upper : ctx'.src ≤ ctx.src + 6
  ripDisp : ctx'.ripDisp = ctx.ripDisp
  code : ∃ code, code.length = 5 ∧ ctx'.trampoline = overwrite ctx.trampoline ctx.dst code

theorem putMovEip_code (ctx : MakeTrampolineContext w) (opcode : Byte) (eip : BitVec 32)
    (srcSize : ℕ) : ∃ code, code.length = 5 ∧
      (putMovEip ctx opcode eip srcSize).trampoline = overwrite ctx.trampoline ctx.dst code := by
  refine ⟨opcode :: leBytes 4 eip, ?_, rfl⟩
  rw [List.length_cons, leBytes_length]

theorem handleX86GetPcThunk_done {cpu : Cpu} {m : Mem w} {func : Addr w}
    {ctx ctx' : MakeTrampolineContext w} {insn : Insn w}
    (h : handleX86GetPcThunk cpu m func ctx insn = some ctx') : IdiomDone ctx ctx' := by
  cases cpu with
  | x86_64 => cases h
  | i386 =>
    unfold handleX86GetPcThunk at h
    dsimp only at h
    split at h
    · obtain ⟨opcode, -, rfl⟩ := Option.map_eq_some_iff.mp h
      exact ⟨rfl, Nat.le_add_left .., Nat.add_le_add_left (by decide) _, rfl,
        putMovEip_code ctx opcode _ _⟩
    · cases h

theorem handleX86GetPcByCallAndPop_done {cpu : Cpu} {m : Mem w} {func : Addr w}
    {ctx ctx' : MakeTrampolineContext w} {insn : Insn w}
    (h : handleX86GetPcByCallAndPop cpu m func ctx insn = some ctx') : IdiomDone ctx ctx' := by
  cases cpu with
  | x86_64 => cases h
  | i386 =>
    unfold handleX86GetPcByCallAndPop at h
    dsimp only at h
    split at h
    · obtain ⟨opcode, -, rfl⟩ := Option.map_eq_some_iff.mp h
      exact ⟨rfl, Nat.le_trans (by decide) (Nat.le_add_left 6 ctx.src), Nat.le_refl _, rfl,
        putMovEip_code ctx opcode _ _⟩
    · cases h

/-- Whether an idiom matches depends on the position in the function alone. -/
theorem handleX86GetPcThunk_isSome {cpu : Cpu} {m : Mem w} {func : Addr w}
    {ctx ctx' : MakeTrampolineContext w} (insn : Insn w) (hsrc : ctx'.src = ctx.src) :
    (handleX86GetPcThunk cpu m func ctx' insn).isSome =
      (handleX86GetPcThunk cpu m func ctx insn).isSome := by
  cases cpu with
  | x86_64 => rfl
  | i386 =>
    unfold handleX86GetPcThunk
    dsimp only
    rw [hsrc]
    split
    · rw [Option.isSome_map, Option.isSome_map]
    · rfl

theorem handleX86GetPcByCallAndPop_isSome {cpu : Cpu} {m : Mem w} {func : Addr w}
    {ctx ctx' : MakeTrampolineContext w} (insn : Insn w) (hsrc : ctx'.src = ctx.src) :
    (handleX86GetPcByCallAndPop cpu m func ctx' insn).isSome =
      (handleX86GetPcByCallAndPop cpu m func ctx insn).isSome := by
  cases cpu with
  | x86_64 => rfl
  | i386 =>
    unfold handleX86GetPcByCallAndPop
    dsimp only
    rw [hsrc]
    split
    · rw [Option.isSome_map, Option.isSome_map]
    · rfl

theorem noIdiom_congr {cpu : Cpu} {m : Mem w} {func : Addr w}
    {ctx ctx' : MakeTrampolineContext w} {insn : Insn w} (hsrc : ctx'.src = ctx.src)
    (hthunk : handleX86GetPcThunk cpu m func ctx insn = none)
    (hpop : handleX86GetPcByCallAndPop cpu m func ctx insn = none) :
    handleX86GetPcThunk cpu m func ctx' insn = none ∧
      handleX86GetPcByCallAndPop cpu m func ctx' insn = none := by
  rw [← Option.not_isSome_iff_eq_none, ← Option.not_isSome_iff_eq_none,
    handleX86GetPcThunk_isSome insn hsrc, handleX86GetPcByCallAndPop_isSome insn hsrc, hthunk, hpop]
  exact ⟨Bool.false_ne_true, Bool.false_ne_true⟩

/-- What moving an instruction does to the positions and the displacements. -/
structure Moved (ctx ctx' : MakeTrampolineContext w) (insn : Insn w) : Prop where
  src : ctx'.src = ctx.src + insn.size
  dst : ctx'.dst = ctx.dst + insn.size
  disp0 : ctx'.ripDisp.disp0 = ctx.ripDisp.disp0
  disp1 : ctx'.ripDisp.disp1 = fieldEntry ctx.dst insn ctx.ripDisp.disp1
  disp_size : insn.relDisp.size = 0 ∨ insn.relDisp.size = 32
  imm_size : insn.relImm.size = 0 ∨ insn.relImm.size = 32
  code : ∃ code, code.length = insn.size ∧
    ctx'.trampoline = overwrite ctx.trampoline ctx.dst code

theorem moveInsn_moved {m : Mem w} {func : Addr w} {ctx ctx' : MakeTrampolineContext w}
    {insn : Insn w} (h : moveInsn m func ctx insn = .ok ctx') : Moved ctx ctx' insn := by
  obtain ⟨ctx₁, ctx₂, hdisp, himm, rfl⟩ := moveInsn_ok h
  rcases handleRipRelative_ok hdisp with ⟨hd, rfl⟩ | ⟨hd, rfl⟩ <;>
    rcases handleRipRelative_ok himm with ⟨hi, rfl⟩ | ⟨hi, rfl⟩ <;>
      exact ⟨rfl, rfl, rfl, by simp [fieldEntry, hd, hi, copyInsn], by simp [hd], by simp [hi],
        _, readBytes_length m (func + BitVec.ofNat w ctx.src) insn.size, rfl⟩

/-- A recorded field is in bounds. -/
theorem fieldEntry_inBounds {insn : Insn w} (hfits : InsnFits insn) {k : ℕ} (hk : k < 5)
    {a : Addr w}
    (ha : (fieldEntry k insn ⟨0, 0, 0⟩).dstAddr = a) (hne : a ≠ 0) :
    (fieldEntry k insn ⟨0, 0, 0⟩).InBounds := by
  have hle := hfits.size_le
  unfold fieldEntry at ha ⊢
  unfold IpDisplacementEntry.InBounds
  simp only [trampolineSize, rel2gJumpSize, maxInsnLen]
  split
  · rename_i himm
    have hinside := (hfits.imm himm).2
    dsimp only
    omega
  · split
    · rename_i hdisp
      have hinside := (hfits.disp hdisp).2
      dsimp only
      omega
    · rename_i himm hdisp
      rw [if_neg himm, if_neg hdisp] at ha
      exact absurd ha.symm hne

/-- An instruction that does not reach the fifth byte has no field. -/
theorem Moved.no_field {ctx ctx' : MakeTrampolineContext w} {insn : Insn w}
    (h : Moved ctx ctx' insn) (hfits : InsnFits insn) (hshort : insn.size < 5) :
    insn.relDisp.size = 0 ∧ insn.relImm.size = 0 := by
  refine ⟨h.disp_size.resolve_right fun h32 => ?_, h.imm_size.resolve_right fun h32 => ?_⟩
  · have := hfits.disp h32
    omega
  · have := hfits.imm h32
    omega

theorem Moved.roundStart {ctx ctx' : MakeTrampolineContext w} {insn : Insn w}
    (h : Moved ctx ctx' insn) (hstart : RoundStart ctx) (hfits : InsnFits insn)
    (hlt : ctx'.src < 5) : RoundStart ctx' := by
  have hsrc := h.src
  have hdst := h.dst
  have hsame := hstart.dst
  obtain ⟨hdisp, himm⟩ := h.no_field hfits (by omega)
  refine ⟨by omega, hlt, ?_⟩
  have hdisp1 := h.disp1
  rw [fieldEntry, if_neg (by omega), if_neg (by omega)] at hdisp1
  have hcongr : ctx'.ripDisp = ctx.ripDisp := by
    cases hrip : ctx'.ripDisp
    rw [hrip] at hdisp1
    have hdisp0 := h.disp0
    rw [hrip] at hdisp0
    dsimp only at hdisp0 hdisp1
    rw [hdisp0, hdisp1]
  rw [hcongr, hstart.ripDisp]

/-! ## Writes -/

theorem IdiomDone.five_le {ctx ctx' : MakeTrampolineContext w} (h : IdiomDone ctx ctx') :
    ctx'.src ≥ rel2gJumpSize :=
  h.lower

/-- The two writes of a round that reaches the fifth byte. -/
theorem lastWrites_inside {dst size : ℕ} (hstart : dst < 5) (hsize : size ≤ 15) :
    ∀ p ∈ [(dst, size), (dst + size, 1)], p.1 + p.2 ≤ trampolineSize := by
  intro p hp
  simp only [List.mem_cons, List.not_mem_nil, or_false] at hp
  simp only [trampolineSize, rel2gJumpSize, maxInsnLen]
  rcases hp with rfl | rfl
  · show dst + size ≤ _
    omega
  · show dst + size + 1 ≤ _
    omega

/-- **The loop writes inside the trampoline**, whatever the decoder reports. -/
theorem loopWrites_inside {cpu : Cpu} {m : Mem w} {func : Addr w} {insns : List (Insn w)}
    (hfits : ∀ insn ∈ insns, InsnFits insn) {ctx : MakeTrampolineContext w}
    (hstart : RoundStart ctx) :
    ∀ p ∈ loopWrites cpu m func insns ctx, p.1 + p.2 ≤ trampolineSize := by
  induction insns generalizing ctx with
  | nil =>
    intro p hp
    simp [loopWrites] at hp
  | cons insn rest ih =>
    have hinsn := hfits insn List.mem_cons_self
    have hdst : ctx.dst < 5 := by rw [hstart.dst]; exact hstart.src
    unfold loopWrites
    split
    · rename_i ctx₁ hthunk
      have hdone := handleX86GetPcThunk_done hthunk
      rw [if_pos hdone.five_le, hdone.dst]
      exact lastWrites_inside hdst (by omega)
    · split
      · rename_i ctx₁ hpop
        have hdone := handleX86GetPcByCallAndPop_done hpop
        rw [hdone.dst]
        cases rest with
        | nil =>
          dsimp only
          rw [if_pos hdone.five_le]
          exact lastWrites_inside hdst (by omega)
        | cons pop rest =>
          dsimp only
          rw [if_pos hdone.five_le]
          exact lastWrites_inside hdst (by omega)
      · intro p hp
        rcases List.mem_cons.mp hp with rfl | hp
        · exact lastWrites_inside hdst hinsn.size_le _ List.mem_cons_self
        · split at hp
          · cases hp
          · rename_i ctx₁ hmove
            have hmoved := moveInsn_moved hmove
            split at hp
            · rw [hmoved.dst] at hp
              exact lastWrites_inside hdst hinsn.size_le _ (List.mem_cons_of_mem _ hp)
            · rename_i hlt
              exact ih (fun i hi => hfits i (List.mem_cons_of_mem _ hi))
                (hmoved.roundStart hstart hinsn (Nat.lt_of_not_ge hlt)) p hp

/-- One write, and then others. -/
theorem WritesTo.cons {buf buf' code : List Byte} {dst size : ℕ} {writes : List (ℕ × ℕ)}
    (hsize : code.length = size) (h : WritesTo (overwrite buf dst code) buf' writes) :
    WritesTo buf buf' ((dst, size) :: writes) := by
  obtain ⟨codes, hwrites, hcodes⟩ := h
  refine ⟨(dst, code) :: codes, ?_, hcodes⟩
  rw [List.map_cons, hwrites, hsize]

theorem writesTo_nil (buf : List Byte) : WritesTo buf buf [] := ⟨[], rfl, rfl⟩

/-- The end of the loop writes the opcode of the jump back. -/
theorem finishTrampoline_writes {func : Addr w} {ctx ctx' : MakeTrampolineContext w}
    {rest : List (Insn w)} (h : finishTrampoline func ctx rest = .ok ctx') :
    WritesTo ctx.trampoline ctx'.trampoline [(ctx.dst, 1)] := by
  rw [finishTrampoline_ok h]
  exact (writesTo_nil _).cons rfl

/-- **The loop writes nothing else.** -/
theorem moveInsns_writes {cpu : Cpu} {m : Mem w} {func : Addr w} {insns : List (Insn w)}
    {ctx ctx' : MakeTrampolineContext w} (h : moveInsns cpu m func insns ctx = .ok ctx') :
    WritesTo ctx.trampoline ctx'.trampoline (loopWrites cpu m func insns ctx) := by
  induction insns generalizing ctx with
  | nil =>
    cases h
    exact writesTo_nil _
  | cons insn rest ih =>
    unfold loopWrites
    cases moveInsns_round h with
    | thunk hthunk hfinish =>
      have hdone := handleX86GetPcThunk_done hthunk
      obtain ⟨code, hlen, hcode⟩ := hdone.code
      rw [hthunk]
      dsimp only
      rw [if_pos hdone.five_le]
      exact WritesTo.cons hlen (hcode ▸ finishTrampoline_writes hfinish)
    | pop hthunk hpop hfinish =>
      have hdone := handleX86GetPcByCallAndPop_done hpop
      obtain ⟨code, hlen, hcode⟩ := hdone.code
      rw [hthunk, hpop]
      dsimp only
      refine WritesTo.cons hlen ?_
      rw [← hcode]
      cases rest with
      | nil =>
        dsimp only
        rw [if_pos hdone.five_le]
        exact finishTrampoline_writes hfinish
      | cons pop rest =>
        dsimp only
        rw [if_pos hdone.five_le]
        exact finishTrampoline_writes hfinish
    | last hthunk hpop hmove hge hfinish =>
      obtain ⟨code, hlen, hcode⟩ := (moveInsn_moved hmove).code
      rw [hthunk, hpop, hmove]
      dsimp only
      rw [if_pos (show _ ≥ rel2gJumpSize from hge)]
      exact WritesTo.cons hlen (hcode ▸ finishTrampoline_writes hfinish)
    | next hthunk hpop hmove hlt hrest =>
      obtain ⟨code, hlen, hcode⟩ := (moveInsn_moved hmove).code
      rw [hthunk, hpop, hmove]
      dsimp only
      rw [if_neg (show ¬_ ≥ rel2gJumpSize from Nat.not_le.mpr hlt)]
      exact WritesTo.cons hlen (hcode ▸ ih hrest)

/-- **A trampoline is made by its writes**, whatever was in its bytes before. -/
theorem trampoline_writes {cpu : Cpu} {disasm : Disasm w} {m : Mem w} {func : Addr w}
    {insns : List (Insn w)} {ctx : MakeTrampolineContext w} (hdecode : disasm m func = .ok insns)
    (h : funchookMakeTrampoline cpu disasm m func = .ok ctx) {buf : List Byte}
    (hbuf : buf.length = trampolineSize) :
    WritesTo buf ctx.trampoline (trampolineWrites cpu m func insns) := by
  have hloop : moveInsns cpu m func insns .init = .ok ctx := by
    unfold funchookMakeTrampoline at h
    rw [hdecode] at h
    dsimp only at h
    split at h
    · cases h
    · rename_i ctx₁ hmove
      split at h
      · rw [hmove]
        exact h
      · cases h
  have hfill : overwrite buf 0 (List.replicate trampolineSize nopInstruction) =
      (MakeTrampolineContext.init : MakeTrampolineContext w).trampoline := by
    rw [overwrite_zero (by rw [List.length_replicate, hbuf]), List.length_replicate,
      List.drop_eq_nil_of_le (Nat.le_of_eq hbuf), List.append_nil]
    rfl
  show WritesTo buf ctx.trampoline ((0, trampolineSize) :: loopWrites cpu m func insns .init)
  refine WritesTo.cons (List.length_replicate (a := nopInstruction)) ?_
  rw [hfill]
  exact moveInsns_writes hloop

theorem trampolineWrites_inside {cpu : Cpu} {m : Mem w} {func : Addr w} {insns : List (Insn w)}
    (hfits : ∀ insn ∈ insns, InsnFits insn) :
    ∀ p ∈ trampolineWrites cpu m func insns, p.1 + p.2 ≤ trampolineSize := by
  intro p hp
  rcases List.mem_cons.mp hp with rfl | hp
  · exact Nat.le_of_eq (Nat.zero_add _)
  · exact loopWrites_inside hfits roundStart_init p hp

/-! ## Ways out of the loop -/

/-- Leaving by the jump back puts both displacements in bounds. -/
theorem finishTrampoline_inBounds {func : Addr w} {ctx ctx' : MakeTrampolineContext w}
    {rest : List (Insn w)} (hw : 20 < 2 ^ w) (hlower : 5 ≤ ctx.src) (hupper : ctx.src ≤ 19)
    (hdst : ctx.dst ≤ 19) (hdisp1 : ctx.ripDisp.disp1.dstAddr ≠ 0 → ctx.ripDisp.disp1.InBounds)
    (h : finishTrampoline func ctx rest = .ok ctx') : PatchInBounds func ctx' := by
  have hctx' := finishTrampoline_ok h
  have hsize : (ctx'.ripDisp.disp0.dstAddr - func).toNat = ctx.src := by
    rw [hctx']
    exact add_sub_toNat func (by omega)
  refine ⟨?_, ?_, ?_, ?_, ?_⟩
  · rw [hsize]
    exact hlower
  · rw [hsize]
    simp only [maxPatchCodeSize, rel2gJumpSize, maxInsnLen]
    omega
  · rw [hctx']
    show ctx.dst + 1 + 4 ≤ ctx.dst + 5 ∧ ctx.dst + 5 ≤ trampolineSize
    simp only [trampolineSize, rel2gJumpSize, maxInsnLen]
    omega
  · rw [hctx']
    exact hdisp1
  · rw [hctx']
    show ctx.dst ≤ ctx.dst + 1
    omega

theorem IdiomDone.inBounds {func : Addr w} {ctx ctx₁ ctx' : MakeTrampolineContext w}
    {rest : List (Insn w)} (hw : 20 < 2 ^ w) (hstart : RoundStart ctx) (hdone : IdiomDone ctx ctx₁)
    (h : finishTrampoline func ctx₁ rest = .ok ctx') : PatchInBounds func ctx' := by
  have hsrc := hstart.src
  have hsame := hstart.dst
  have hdst := hdone.dst
  have hupper := hdone.upper
  refine finishTrampoline_inBounds hw hdone.lower (by omega) (by omega) ?_ h
  intro hne
  rw [hdone.ripDisp, hstart.ripDisp] at hne
  exact absurd rfl hne

theorem Moved.inBounds {func : Addr w} {ctx ctx₁ ctx' : MakeTrampolineContext w}
    {insn : Insn w} {rest : List (Insn w)} (hw : 20 < 2 ^ w) (hstart : RoundStart ctx)
    (hfits : InsnFits insn) (hmoved : Moved ctx ctx₁ insn) (hge : 5 ≤ ctx₁.src)
    (h : finishTrampoline func ctx₁ rest = .ok ctx') : PatchInBounds func ctx' := by
  have hstart_src := hstart.src
  have hsame := hstart.dst
  have hsrc := hmoved.src
  have hdst := hmoved.dst
  have hle := hfits.size_le
  refine finishTrampoline_inBounds hw hge (by omega) (by omega) ?_ h
  intro hne
  have hdisp1 : ctx₁.ripDisp.disp1 = fieldEntry ctx.dst insn ⟨0, 0, 0⟩ := by
    rw [hmoved.disp1, hstart.ripDisp]
    rfl
  rw [hdisp1] at hne ⊢
  exact fieldEntry_inBounds hfits (by omega) rfl hne

/-- None of the instructions starts an idiom, when the first is `src` bytes into the function. -/
def NoIdiomFrom (cpu : Cpu) (m : Mem w) (func : Addr w) (src : ℕ) (insns : List (Insn w)) : Prop :=
  ∀ k insn, InsnAt insns k insn → src + k < 5 → ∀ c : MakeTrampolineContext w, c.src = src + k →
    handleX86GetPcThunk cpu m func c insn = none ∧
      handleX86GetPcByCallAndPop cpu m func c insn = none

theorem noIdiomFrom_cons {cpu : Cpu} {m : Mem w} {func : Addr w} {insn : Insn w}
    {rest : List (Insn w)} {ctx : MakeTrampolineContext w}
    (hthunk : handleX86GetPcThunk cpu m func ctx insn = none)
    (hpop : handleX86GetPcByCallAndPop cpu m func ctx insn = none)
    (hrest : NoIdiomFrom cpu m func (ctx.src + insn.size) rest) :
    NoIdiomFrom cpu m func ctx.src (insn :: rest) := by
  intro k other hat hk c hc
  rcases insnAt_cons_cases hat with ⟨rfl, rfl⟩ | ⟨j, rfl, hat'⟩
  · exact noIdiom_congr hc hthunk hpop
  · exact hrest j other hat' (by omega) c (by omega)

/-- The decoder has stopped before the fifth byte, after moving every instruction. -/
structure RanOut (cpu : Cpu) (m : Mem w) (func : Addr w) (insns : List (Insn w))
    (ctx ctx' : MakeTrampolineContext w) : Prop where
  start : RoundStart ctx'
  src : ctx'.src = ctx.src + totalSize insns
  movable : ∀ insn ∈ insns, insn.relDisp.size = 0 ∧ insn.relImm.size = 0
  idiom : NoIdiomFrom cpu m func ctx.src insns

/-- **The loop.** When it does not fail, the two displacements are in bounds or the decoder has
stopped before the fifth byte. -/
theorem moveInsns_inBounds {cpu : Cpu} {m : Mem w} {func : Addr w} {insns : List (Insn w)}
    (hw : 20 < 2 ^ w) (hfits : ∀ insn ∈ insns, InsnFits insn)
    {ctx ctx' : MakeTrampolineContext w} (hstart : RoundStart ctx)
    (h : moveInsns cpu m func insns ctx = .ok ctx') :
    PatchInBounds func ctx' ∨ RanOut cpu m func insns ctx ctx' := by
  induction insns generalizing ctx with
  | nil =>
    cases h
    refine Or.inr ⟨hstart, rfl, fun insn hmem => absurd hmem List.not_mem_nil, ?_⟩
    intro k insn hat
    obtain ⟨pre, post, heq, -⟩ := hat
    simp at heq
  | cons insn rest ih =>
    have hinsn := hfits insn List.mem_cons_self
    cases moveInsns_round h with
    | thunk hthunk hfinish =>
      exact Or.inl ((handleX86GetPcThunk_done hthunk).inBounds hw hstart hfinish)
    | pop _ hpop hfinish =>
      exact Or.inl ((handleX86GetPcByCallAndPop_done hpop).inBounds hw hstart hfinish)
    | last _ _ hmove hge hfinish =>
      exact Or.inl ((moveInsn_moved hmove).inBounds hw hstart hinsn hge hfinish)
    | @next ctx₁ hthunk hpop hmove hlt hrest =>
      have hmoved := moveInsn_moved hmove
      have hsrc := hmoved.src
      refine (ih (fun i hi => hfits i (List.mem_cons_of_mem _ hi))
        (hmoved.roundStart hstart hinsn hlt) hrest).imp_right ?_
      intro hran
      refine ⟨hran.start, ?_, ?_, noIdiomFrom_cons hthunk hpop (hsrc ▸ hran.idiom)⟩
      · rw [hran.src, hsrc, totalSize_cons, Nat.add_assoc]
      · intro i hi
        rcases List.mem_cons.mp hi with rfl | hi
        · exact hmoved.no_field hinsn (by omega)
        · exact hran.movable i hi

/-- Instructions without fields and idioms that end before the fifth byte are all moved. -/
theorem moveInsns_ranOut {cpu : Cpu} {m : Mem w} {func : Addr w} {insns : List (Insn w)}
    (hfits : ∀ insn ∈ insns, InsnFits insn) {ctx : MakeTrampolineContext w}
    (hstart : RoundStart ctx) (hshort : ctx.src + totalSize insns < 5)
    (hmovable : ∀ insn ∈ insns, insn.relDisp.size = 0 ∧ insn.relImm.size = 0)
    (hidiom : NoIdiomFrom cpu m func ctx.src insns) :
    ∃ ctx', moveInsns cpu m func insns ctx = .ok ctx' ∧ RoundStart ctx' ∧
      ctx'.src = ctx.src + totalSize insns := by
  induction insns generalizing ctx with
  | nil => exact ⟨ctx, rfl, hstart, rfl⟩
  | cons insn rest ih =>
    have hinsn := hfits insn List.mem_cons_self
    obtain ⟨hdisp, himm⟩ := hmovable insn List.mem_cons_self
    obtain ⟨hthunk, hpop⟩ := hidiom 0 insn (insnAt_head insn rest) hstart.src ctx rfl
    have hmove : ∃ ctx₁, moveInsn m func ctx insn = .ok ctx₁ := by
      unfold moveInsn handleRipRelative
      rw [hdisp, himm]
      exact ⟨_, rfl⟩
    obtain ⟨ctx₁, hmove⟩ := hmove
    have hmoved := moveInsn_moved hmove
    have hsrc := hmoved.src
    rw [totalSize_cons] at hshort
    have hlt : ctx₁.src < 5 := by omega
    obtain ⟨ctx', hok, hstart', hsrc'⟩ := ih (fun i hi => hfits i (List.mem_cons_of_mem _ hi))
      (hmoved.roundStart hstart hinsn hlt) (by omega)
      (fun i hi => hmovable i (List.mem_cons_of_mem _ hi))
      (fun k i hat hk c hc => hidiom (insn.size + k) i (insnAt_cons hat insn) (by omega) c
        (by omega))
    refine ⟨ctx', ?_, hstart', by rw [hsrc', hsrc, totalSize_cons, Nat.add_assoc]⟩
    rw [moveInsns, hthunk]
    dsimp only
    rw [hpop]
    dsimp only
    rw [hmove]
    dsimp only
    rw [if_neg (show ¬ctx₁.src ≥ rel2gJumpSize from Nat.not_le_of_lt hlt)]
    exact hok

/-! ## In bounds, exactly when no padding is needed -/

/-- A call that returns 0 yields a patch in bounds, and no call writes outside the trampoline. -/
structure TrampolineInBounds (cpu : Cpu) (disasm : Disasm cpu.bits) (m : Mem cpu.bits)
    (func : Addr cpu.bits) (insns : List (Insn cpu.bits)) : Prop where
  writes : ∀ p ∈ trampolineWrites cpu m func insns, p.1 + p.2 ≤ trampolineSize
  patch : ∀ ctx, funchookMakeTrampoline cpu disasm m func = .ok ctx → PatchInBounds func ctx
  patchCodeSize : ∀ ctx, funchookMakeTrampoline cpu disasm m func = .ok ctx →
    ∀ (hookCallerAsm slot : Addr cpu.bits) (entry : FunchookEntry cpu.bits),
      entry.targetFunc = func →
        rel2gJumpSize ≤
            (funchookFixCode cpu hookCallerAsm slot entry ctx.ripDisp).patchCodeSize.toNat ∧
          (funchookFixCode cpu hookCallerAsm slot entry ctx.ripDisp).patchCodeSize.toNat ≤
            maxPatchCodeSize

theorem PatchInBounds.patchCodeSize {cpu : Cpu} {func : Addr cpu.bits}
    {ctx : MakeTrampolineContext cpu.bits} (h : PatchInBounds func ctx)
    (hookCallerAsm slot : Addr cpu.bits) {entry : FunchookEntry cpu.bits}
    (htarget : entry.targetFunc = func) :
    (funchookFixCode cpu hookCallerAsm slot entry ctx.ripDisp).patchCodeSize.toNat =
      (ctx.ripDisp.disp0.dstAddr - func).toNat := by
  have hupper := h.upper
  simp only [maxPatchCodeSize, rel2gJumpSize, maxInsnLen] at hupper
  show (displacement entry.targetFunc ctx.ripDisp.disp0.dstAddr).toNat = _
  rw [htarget, displacement, BitVec.toNat_setWidth, Nat.mod_eq_of_lt (by omega)]

theorem PaddedWithNops.not_inBounds {cpu : Cpu} {disasm : Disasm cpu.bits} {m : Mem cpu.bits}
    {func : Addr cpu.bits} {insns : List (Insn cpu.bits)} (hdecode : disasm m func = .ok insns)
    (hfits : ∀ insn ∈ insns, InsnFits insn) (h : PaddedWithNops cpu m func insns) :
    ¬TrampolineInBounds cpu disasm m func insns := by
  intro hsafe
  have hshort := h.short
  have hzero : (MakeTrampolineContext.init : MakeTrampolineContext cpu.bits).src = 0 := rfl
  obtain ⟨ctx, hmove, hstart, hsrc⟩ := moveInsns_ranOut hfits roundStart_init
    (by rw [hzero, Nat.zero_add]; exact hshort) h.movable
    (fun k insn hat hk c hc => h.idiom k insn hat (by omega) c (by omega))
  have hmake : funchookMakeTrampoline cpu disasm m func = .ok ctx := by
    unfold funchookMakeTrampoline
    rw [hdecode]
    dsimp only
    rw [hmove]
    dsimp only
    rw [hsrc, hzero, Nat.zero_add, if_pos h.nops]
  -- the displacement of the jump back was never filled in
  have hdisp0 := (hsafe.patch ctx hmake).disp0.1
  rw [hstart.ripDisp] at hdisp0
  exact absurd hdisp0 (Nat.not_succ_le_zero 3)

/-- **When success means in bounds.** Whatever the decoder reports, and wherever it stops, all
writes stay inside the trampoline; and a call that returns 0 leaves displacements and a patch size
in bounds unless it ended in the check for `nop` padding. -/
theorem trampoline_inBounds_iff {cpu : Cpu} {disasm : Disasm cpu.bits} {m : Mem cpu.bits}
    {func : Addr cpu.bits} {insns : List (Insn cpu.bits)} (hdecode : disasm m func = .ok insns)
    (hfits : ∀ insn ∈ insns, InsnFits insn) :
    TrampolineInBounds cpu disasm m func insns ↔ ¬PaddedWithNops cpu m func insns := by
  constructor
  · intro hsafe hpadded
    exact hpadded.not_inBounds hdecode hfits hsafe
  · intro hpadded
    have hw : 20 < 2 ^ cpu.bits := by cases cpu <;> decide
    have hpatch : ∀ ctx, funchookMakeTrampoline cpu disasm m func = .ok ctx →
        PatchInBounds func ctx := by
      intro ctx hmake
      unfold funchookMakeTrampoline at hmake
      rw [hdecode] at hmake
      dsimp only at hmake
      split at hmake
      · cases hmake
      · rename_i ctx₁ hmove
        split at hmake
        · rename_i hnops
          cases hmake
          refine (moveInsns_inBounds hw hfits roundStart_init hmove).resolve_right ?_
          intro hran
          have hzero : (MakeTrampolineContext.init : MakeTrampolineContext cpu.bits).src = 0 := rfl
          have hsrc : ctx.src = totalSize insns := by rw [hran.src, hzero, Nat.zero_add]
          refine hpadded ⟨hsrc ▸ hran.start.src, hsrc ▸ hnops, hran.movable, ?_⟩
          intro k insn hat hk c hc
          exact hran.idiom k insn hat (by omega) c (by omega)
        · cases hmake
    refine ⟨trampolineWrites_inside hfits, hpatch, ?_⟩
    intro ctx hmake hookCallerAsm slot entry htarget
    have hbounds := hpatch ctx hmake
    rw [hbounds.patchCodeSize hookCallerAsm slot htarget]
    exact ⟨hbounds.lower, hbounds.upper⟩

/-- One instruction of one byte. -/
def byteInsn (addr : Addr w) : Insn w := ⟨1, addr, 0, ⟨0, 0, 0, 0⟩, ⟨0, 0, 0, 0⟩⟩

theorem byteInsn_fits (addr : Addr w) : InsnFits (byteInsn addr) :=
  ⟨Nat.le_refl 1, show 1 ≤ 15 by decide, fun h => absurd (show 0 = 32 from h) (by decide),
    fun h => absurd (show 0 = 32 from h) (by decide)⟩

/-- A decoder of `nop` and `ret` that stops after a `ret`. -/
def decodeToRet (m : Mem w) : ℕ → Addr w → List (Insn w)
  | 0, _ => []
  | size + 1, addr =>
    if m addr = 0xc3 then [byteInsn addr]
    else if m addr = 0x90 then byteInsn addr :: decodeToRet m size (addr + 1)
    else []

def stopOnRet : Disasm w := fun m func => .ok (decodeToRet m maxInsnCheckSize func)

/-- A `ret` at `0x401300`, padded with `nop`. -/
def paddedRet : Mem 64 :=
  write (sampleWorld : World 64).bytes 0x401300 [0xc3, 0x90, 0x90, 0x90, 0x90]

/-- **A patch of no size.** The function is accepted, and `disp[0]` is still zero. -/
theorem padded_ret_accepted :
    (funchookMakeTrampoline .x86_64 stopOnRet paddedRet 0x401300).map (·.ripDisp) = .ok .zero ∧
      ¬TrampolineInBounds .x86_64 stopOnRet paddedRet 0x401300 [byteInsn 0x401300] := by
  have hdecode : stopOnRet paddedRet 0x401300 = .ok [byteInsn 0x401300] :=
    congrArg Except.ok (by decide +kernel)
  refine ⟨by decide +kernel, PaddedWithNops.not_inBounds hdecode ?_ ?_⟩
  · intro insn hmem
    rw [List.mem_singleton.mp hmem]
    exact byteInsn_fits 0x401300
  · refine ⟨by decide, by decide +kernel, ?_, fun _ _ _ _ _ _ => ⟨rfl, rfl⟩⟩
    intro insn hmem
    rw [List.mem_singleton.mp hmem]
    exact ⟨rfl, rfl⟩

/-- Seven `nop`, with the same decoder. -/
theorem trampoline_inBounds_iff_sample :
    TrampolineInBounds .x86_64 stopOnRet (sampleWorld : World 64).bytes 0x401000
      (decodeToRet (sampleWorld : World 64).bytes maxInsnCheckSize 0x401000) := by
  refine (trampoline_inBounds_iff rfl ?_).mpr fun h => absurd h.short (by decide +kernel)
  intro insn hmem
  have hall : ∀ insn ∈ decodeToRet (sampleWorld : World 64).bytes maxInsnCheckSize 0x401000,
      insn = byteInsn insn.address := by
    decide +kernel
  rw [hall insn hmem]
  exact byteInsn_fits _

end Funchook.X86
