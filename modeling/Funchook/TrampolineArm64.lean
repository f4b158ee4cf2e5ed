import Funchook.ArchArm64
import Funchook.Lib.A64

/-!
# Moved instructions of AArch64

What the loop of `funchookMakeTrampoline` emits for one instruction is run on a machine that
holds the finished trampoline, and compared with the instruction run at its own address. Three
layers: the words decode to the instructions that the comments of the source name; the code and
the literals of every round of the loop are kept by the rounds after it; a moved instruction then
has the effect of the original, up to one scratch register.
-/

namespace Funchook.Arm64

open ByteMemory
open A64 (Reg Instr LoadKind field decode wordOffset)

/-! ## Immediates -/

/-- The bits of the masks that the immediate macros use. -/
theorem getElem_masks (i : Fin 64) : (18446744073709551612#64)[i.val] = decide (2 ≤ i.val) ∧
    (3#64)[i.val] = decide (i.val < 2) := by
  revert i
  decide

theorem imm26Offset_eq (w : Word) : imm26Offset w = wordOffset (w.extractLsb' 0 26) := by
  apply BitVec.eq_of_getLsbD_eq
  intro i hi
  simp [imm26Offset, wordOffset, hi]
  grind

theorem imm19Offset_eq (w : Word) : imm19Offset w = wordOffset (w.extractLsb' 5 19) := by
  apply BitVec.eq_of_getLsbD_eq
  intro i hi
  have hmask := (getElem_masks ⟨i, hi⟩).1
  simp [imm19Offset, wordOffset, hi]
  grind

theorem imm14Offset_eq (w : Word) : imm14Offset w = wordOffset (w.extractLsb' 5 14) := by
  apply BitVec.eq_of_getLsbD_eq
  intro i hi
  have hmask := (getElem_masks ⟨i, hi⟩).1
  simp [imm14Offset, wordOffset, hi]
  grind

theorem immAdrOffset_eq (w : Word) :
    immAdrOffset w = (w.extractLsb' 5 19 ++ w.extractLsb' 29 2).signExtend 64 := by
  apply BitVec.eq_of_getLsbD_eq
  intro i hi
  have hmask := getElem_masks ⟨i, hi⟩
  simp [immAdrOffset, imm19Offset, hi]
  grind

/-! ## Registers -/

/-- A register that `to_regno` may hand out. -/
def Corruptible (r : Reg) : Prop := 9 ≤ r.toNat ∧ r.toNat ≤ 15

instance (r : Reg) : Decidable (Corruptible r) := inferInstanceAs (Decidable (_ ∧ _))

theorem Corruptible.ne_zr {r : Reg} (h : Corruptible r) : r ≠ 31 := by
  rintro rfl
  exact absurd h (by decide)

theorem toRegno_ok {avail regno : Word} (h : toRegno avail = .ok regno) :
    ∃ r : Reg, regno = field 0 r ∧ Corruptible r ∧ avail.getLsbD r.toNat = true := by
  unfold toRegno at h
  split_ifs at h <;> cases h
  exacts [⟨9, rfl, by decide, ‹_›⟩, ⟨10, rfl, by decide, ‹_›⟩, ⟨11, rfl, by decide, ‹_›⟩,
    ⟨12, rfl, by decide, ‹_›⟩, ⟨13, rfl, by decide, ‹_›⟩, ⟨14, rfl, by decide, ‹_›⟩,
    ⟨15, rfl, by decide, ‹_›⟩]

theorem rdRegno_eq (w : Word) : rdRegno w = field 0 (w.extractLsb' 0 5) := by
  have hmask : ∀ i : Fin 32, (31#32)[i.val] = decide (i.val < 5) := by decide
  apply BitVec.eq_of_getLsbD_eq
  intro i hi
  have := hmask ⟨i, hi⟩
  simp [rdRegno, field, hi]
  grind

/-- The mask that reads the condition. -/
theorem cond_eq (w : Word) : w &&& 0x0f = field 0 (w.extractLsb' 0 4) := by
  have hmask : ∀ i : Fin 32, (15#32)[i.val] = decide (i.val < 4) := by decide
  apply BitVec.eq_of_getLsbD_eq
  intro i hi
  have := hmask ⟨i, hi⟩
  simp [field, hi]
  grind

theorem cond_eq_al (w : Word) : w &&& 0x0f = 0x0e ↔ w.extractLsb' 0 4 = 14 := by
  rw [cond_eq]
  generalize w.extractLsb' 0 4 = cond
  revert cond
  decide

theorem toImm_field (r : Reg) : toImm (field 0 r) = field 5 r := by
  simp [toImm, field]

/-! ## Words that the loop emits -/

theorem and_all_five (x : BitVec 5) : x &&& 31#5 = x := by
  revert x
  decide

theorem and_all_one (x : BitVec 1) : x &&& 1#1 = x := by
  revert x
  decide

/-- Clearing the lowest bit and setting it to its inverse. -/
theorem invert_low_bit (c : BitVec 4) : c &&& 14#4 &&& 15#4 ||| c &&& 1#4 ^^^ 1#4 = c ^^^ 1#4 := by
  revert c
  decide

theorem decode_inverted_bcond {w : Word} {cond : BitVec 4} {imm : BitVec 19}
    (h : decode w = some (.bcond cond imm)) :
    decode (imm19Reset (resetAt w 0) ||| toImm 3 ||| invertAt w 0) =
      some (.bcond (cond ^^^ 1) 3) := by
  obtain ⟨hgroup, hclass, hsf, hlow, hbit4, hcond, himm⟩ := A64.decode_bcond h
  simp [decode, imm19Reset, resetAt, invertAt, toImm, imm19Mask, BitVec.extractLsb'_or,
    BitVec.extractLsb'_and, BitVec.extractLsb'_xor, invert_low_bit, *]

theorem decode_inverted_cbz {w : Word} {sf nonzero : Bool} {rt : Reg} {imm : BitVec 19}
    (h : decode w = some (.cbz sf nonzero rt imm)) :
    decode (imm19Reset (resetAt w 24) ||| invertAt w 24 ||| toImm 3) =
      some (.cbz sf (!nonzero) rt 3) := by
  obtain ⟨hgroup, hclass, hbit25, hsf, hnonzero, hrt, himm⟩ := A64.decode_cbz h
  simp [decode, imm19Reset, resetAt, invertAt, toImm, imm19Mask, BitVec.extractLsb'_or,
    BitVec.extractLsb'_and, BitVec.extractLsb'_xor, and_all_five, and_all_one, *]
  cases nonzero <;> rfl

theorem decode_inverted_tbz {w : Word} {nonzero : Bool} {pos : BitVec 6} {rt : Reg}
    {imm : BitVec 14} (h : decode w = some (.tbz nonzero pos rt imm)) :
    decode (imm14Reset (resetAt w 24) ||| invertAt w 24 ||| toImm 3) =
      some (.tbz (!nonzero) pos rt 3) := by
  obtain ⟨hgroup, hclass, hbit25, hpos, hnonzero, hrt, himm⟩ := A64.decode_tbz h
  simp [decode, imm14Reset, resetAt, invertAt, toImm, imm14Mask, BitVec.extractLsb'_or,
    BitVec.extractLsb'_and, BitVec.extractLsb'_xor, and_all_five, and_all_one, *]
  cases nonzero <;> rfl

theorem decode_brByReg (r : Reg) : decode (0xd61f0000 ||| toImm (field 0 r)) = some (.br r) := by
  rw [toImm_field]
  exact A64.decode_encode (.br r)

/-- The word that replaces `B` or `BL` takes the link bit from bit 31. -/
theorem linkBit (w : Word) :
    (w &&& 0x80000000) >>> 10 = if w.extractLsb' 31 1 = 1#1 then 0x00200000#32 else 0 := by
  have hmask : (0x80000000 : Word) = BitVec.twoPow 32 31 := by decide
  have hbit : w.extractLsb' 31 1 = 1#1 ↔ w.getLsbD 31 = true := by
    simp [BitVec.eq_of_getLsbD_eq_iff]
  rw [hmask, BitVec.and_twoPow]
  simp only [hbit]
  split <;> rfl

theorem decode_branchByReg_b {w : Word} {imm : BitVec 26} (h : decode w = some (.b imm))
    (r : Reg) :
    decode (0xd61f0000 ||| (w &&& 0x80000000) >>> 10 ||| toImm (field 0 r)) = some (.br r) := by
  rw [linkBit, (A64.decode_b h).1, toImm_field]
  exact A64.decode_encode (.br r)

theorem decode_branchByReg_bl {w : Word} {imm : BitVec 26} (h : decode w = some (.bl imm))
    (r : Reg) :
    decode (0xd61f0000 ||| (w &&& 0x80000000) >>> 10 ||| toImm (field 0 r)) = some (.blr r) := by
  rw [linkBit, (A64.decode_bl h).1, toImm_field]
  exact A64.decode_encode (.blr r)

/-- The top byte of a word, from its fields. -/
theorem top_byte (w : Word) : w >>> 24 =
    (w.extractLsb' 30 2 ++ w.extractLsb' 29 1 ++ w.extractLsb' 27 2 ++ w.extractLsb' 26 1 ++
      w.extractLsb' 24 2 : BitVec 8).setWidth 32 := by
  apply BitVec.eq_of_getLsbD_eq
  intro i hi
  simp [hi]
  grind

theorem decode_ldrReg {kind : LoadKind} {opcode : Word}
    (h : 0x39000000 ||| field 30 kind.register.1 ||| field 26 kind.register.2.1 |||
      field 22 kind.register.2.2 = opcode) (rt rn : Reg) :
    decode (opcode ||| field 5 rn ||| field 0 rt) = some (.ldrReg kind rt rn) := by
  subst h
  exact A64.decode_encode (.ldrReg kind rt rn)

/-- Every literal form has a load through a register of the same kind. -/
theorem decode_loadByReg {w : Word} {kind : LoadKind} {rt : Reg} {imm : BitVec 19}
    (h : decode w = some (.ldrLit kind rt imm)) (r : Reg) :
    ∃ opcode, ldrOpcode (w >>> 24) = some opcode ∧
      decode (opcode ||| toImm (field 0 r) ||| rdRegno w) = some (.ldrReg kind rt r) := by
  obtain ⟨hload, hlit, hlow, hopc, hv, hrt, -⟩ := A64.decode_ldrLit h
  rw [top_byte, hload, hlit, hlow, hopc, hv, toImm_field, rdRegno_eq, hrt]
  cases kind with
  | w => exact ⟨0xb9400000, by decide, decode_ldrReg (by decide) rt r⟩
  | x => exact ⟨0xf9400000, by decide, decode_ldrReg (by decide) rt r⟩
  | sw => exact ⟨0xb9800000, by decide, decode_ldrReg (by decide) rt r⟩
  | prfm => exact ⟨0xf9800000, by decide, decode_ldrReg (by decide) rt r⟩
  | s => exact ⟨0xbd400000, by decide, decode_ldrReg (by decide) rt r⟩
  | d => exact ⟨0xfd400000, by decide, decode_ldrReg (by decide) rt r⟩
  | q => exact ⟨0x3dc00000, by decide, decode_ldrReg (by decide) rt r⟩

/-- A field of the top byte. -/
theorem extract_top (w : Word) (start len : ℕ) :
    w.extractLsb' (24 + start) len = (w >>> 24).extractLsb' start len := by
  ext i hi
  simp [Nat.add_assoc]

/-- A top byte with an opcode belongs to a literal form. -/
theorem decode_of_ldrOpcode {w opcode : Word} (h : ldrOpcode (w >>> 24) = some opcode) :
    ∃ kind rt imm, decode w = some (.ldrLit kind rt imm) := by
  have hgroup := extract_top w 2 3
  have hload := extract_top w 3 2
  have hlit := extract_top w 5 1
  have hlow := extract_top w 0 2
  have hopc := extract_top w 6 2
  have hv := extract_top w 2 1
  unfold ldrOpcode at h
  split_ifs at h with h18 h58 h98 h1c h5c h9c hd8
  all_goals
    simp [decode, *]
    exact ⟨_, rfl⟩

/-! ## The finished trampoline in memory -/

/-- The code and the literals stay within their parts of the trampoline. -/
structure MakeTrampolineContext.Fits (ctx : MakeTrampolineContext) : Prop where
  dst : ctx.dst.length ≤ literalPoolOffset
  literalPool : ctx.literalPool.length ≤ literalPoolNum

/-- What has been emitted by `ctx` is part of what `final` holds. -/
structure MakeTrampolineContext.PartOf (ctx final : MakeTrampolineContext) : Prop where
  dst : ctx.dst <+: final.dst
  literalPool : ctx.literalPool <+: final.literalPool

theorem partOf_refl (ctx : MakeTrampolineContext) : ctx.PartOf ctx :=
  ⟨List.prefix_refl _, List.prefix_refl _⟩

theorem MakeTrampolineContext.PartOf.trans {a b c : MakeTrampolineContext} (h : a.PartOf b)
    (h' : b.PartOf c) : a.PartOf c :=
  ⟨h.dst.trans h'.dst, h.literalPool.trans h'.literalPool⟩

/-- The trampoline stands at `tramp` in the memory of a machine. -/
def MakeTrampolineContext.LoadedAt (ctx : MakeTrampolineContext) (tramp : Addr 64)
    (m : Mem 64) : Prop :=
  readBytes m tramp (4 * trampolineSize) = ctx.trampolineBytes

theorem wordAddr_add (p : Addr 64) (i j : ℕ) :
    wordAddr p i + BitVec.ofNat 64 (4 * j) = wordAddr p (i + j) := by
  rw [wordAddr, wordAddr, BitVec.add_assoc, ← BitVec.ofNat_add, Nat.mul_add]

theorem wordAddr_succ (p : Addr 64) (i : ℕ) : wordAddr p i + 4 = wordAddr p (i + 1) :=
  wordAddr_add p i 1

/-- A word of the code is read at its own address. -/
theorem readWord_code {ctx : MakeTrampolineContext} (hfits : ctx.Fits) {tramp : Addr 64}
    {m : Mem 64} (hload : ctx.LoadedAt tramp m) {j : ℕ} {w : Word} (hw : ctx.dst[j]? = some w) :
    readWord 4 m (wordAddr tramp j) = w := by
  have hj : j < ctx.dst.length := (List.getElem?_eq_some_iff.mp hw).1
  have hdst := hfits.dst
  have hsize : literalPoolOffset ≤ trampolineSize := by decide
  have hin : 4 * j + 4 ≤ 4 * literalPoolOffset := by omega
  have hbuf := @bufWord_overwrite_leWords 4 ctx.dst (List.replicate (4 * trampolineSize) 0) 0 j w hw
    (by rw [List.length_replicate]; omega)
  rw [Nat.zero_add] at hbuf
  rw [wordAddr, readWord_eq_bufWord (N := 4 * trampolineSize) (by omega), hload,
    MakeTrampolineContext.trampolineBytes, bufWord_overwrite_of_out (Or.inl hin)]
  exact hbuf

/-- A literal is read at its slot of the pool. -/
theorem readWord_literal {ctx : MakeTrampolineContext} (hfits : ctx.Fits) {tramp : Addr 64}
    {m : Mem 64} (hload : ctx.LoadedAt tramp m) {k : ℕ} {v : BitVec 64}
    (hv : ctx.literalPool[k]? = some v) :
    readWord 8 m (wordAddr tramp (literalPoolOffset + 2 * k)) = v := by
  have hk : k < ctx.literalPool.length := (List.getElem?_eq_some_iff.mp hv).1
  have hpool := hfits.literalPool
  have hsize : trampolineSize = literalPoolOffset + 2 * literalPoolNum := rfl
  have hbuf := @bufWord_overwrite_leWords 8 ctx.literalPool
    (overwrite (List.replicate (4 * trampolineSize) 0) 0 (wordBytes ctx.dst))
    (4 * literalPoolOffset) k v hv (by rw [overwrite_length, List.length_replicate]; omega)
  rw [show 4 * literalPoolOffset + 8 * k = 4 * (literalPoolOffset + 2 * k) by omega] at hbuf
  rw [wordAddr, readWord_eq_bufWord (N := 4 * trampolineSize) (by omega), hload]
  exact hbuf

theorem getElem?_prefix_eq {α : Type} {l l' : List α} (h : l <+: l') {i : ℕ} {a : α}
    (ha : l[i]? = some a) : l'[i]? = some a := by
  obtain ⟨t, rfl⟩ := h
  rw [List.getElem?_append_left (List.getElem?_eq_some_iff.mp ha).1, ha]

/-- The immediate that `LDR_ADDR` computes for the word `d` and the literal `k`. -/
theorem literal_imm (d : Fin 8) (k : Fin 3) :
    toImm ((BitVec.ofNat 32 (4 * literalPoolOffset + 8 * k.val) -
      BitVec.ofNat 32 (4 * d.val)).sshiftRight 2) =
        field 5 (BitVec.ofNat 19 (literalPoolOffset + 2 * k.val - d.val)) := by
  revert d k
  decide

theorem literal_offset (n : Fin 13) :
    wordOffset (BitVec.ofNat 19 n.val) = BitVec.ofNat 64 (4 * n.val) := by
  revert n
  decide

/-- The word that `LDR_ADDR` emits, and the slot of the literal pool it reads wherever the code
stands. -/
theorem ldrAddr_word {ctx : MakeTrampolineContext} {r : Reg} {addr : BitVec 64}
    (hd : ctx.dst.length < literalPoolOffset) (hk : ctx.literalPool.length < literalPoolNum) :
    ∃ imm, (ctx.ldrAddr (field 0 r) addr).dst =
        ctx.dst ++ [(Instr.ldrLit .x r imm).encode] ∧
      ∀ tramp, wordAddr tramp ctx.dst.length + A64.wordOffset imm =
        wordAddr tramp (literalPoolOffset + 2 * ctx.literalPool.length) := by
  have height : literalPoolOffset = 8 := rfl
  have hthree : literalPoolNum = 3 := rfl
  have himm := literal_imm ⟨ctx.dst.length, by omega⟩ ⟨ctx.literalPool.length, by omega⟩
  have hoff := literal_offset ⟨literalPoolOffset + 2 * ctx.literalPool.length - ctx.dst.length,
    by omega⟩
  simp only at himm hoff
  refine ⟨BitVec.ofNat 19 (literalPoolOffset + 2 * ctx.literalPool.length - ctx.dst.length), ?_, ?_⟩
  · unfold MakeTrampolineContext.ldrAddr
    dsimp only
    rw [himm]
    rfl
  · intro tramp
    rw [hoff, wordAddr_add, Nat.add_sub_cancel' (by omega)]

/-- **`LDR_ADDR`.** The word it emits loads the address it was given. -/
theorem step_ldrAddr {ctx final : MakeTrampolineContext} (hfits : final.Fits) {tramp : Addr 64}
    {s : A64.State} (hload : final.LoadedAt tramp s.mem) {r : Reg} {addr : BitVec 64}
    (hpart : (ctx.ldrAddr (field 0 r) addr).PartOf final)
    (hpc : s.pc = wordAddr tramp ctx.dst.length) :
    A64.step s = some ((s.writeX r addr).withPc (wordAddr tramp (ctx.dst.length + 1))) := by
  have hd : ctx.dst.length + 1 ≤ literalPoolOffset := by
    simpa [MakeTrampolineContext.ldrAddr] using Nat.le_trans hpart.dst.length_le hfits.dst
  have hk : ctx.literalPool.length + 1 ≤ literalPoolNum := by
    simpa [MakeTrampolineContext.ldrAddr] using
      Nat.le_trans hpart.literalPool.length_le hfits.literalPool
  obtain ⟨imm, hdst, hslot⟩ := @ldrAddr_word ctx r addr hd hk
  have hfetch : s.fetch = (Instr.ldrLit .x r imm).encode := by
    rw [A64.State.fetch, hpc, readWord_code hfits hload (getElem?_prefix_eq hpart.dst
      (by rw [hdst]; exact List.getElem?_concat_length ..))]
  have hlit := readWord_literal hfits hload (getElem?_prefix_eq hpart.literalPool
    (List.getElem?_concat_length ..))
  rw [A64.step_of_decode (by rw [hfetch, A64.decode_encode])]
  simp only [Instr.effect, A64.load]
  rw [hpc, hslot, wordAddr_succ, hlit]

/-- Any other word is executed as it decodes. -/
theorem step_put {ctx final : MakeTrampolineContext} (hfits : final.Fits) {tramp : Addr 64}
    {s : A64.State} (hload : final.LoadedAt tramp s.mem) {w : Word} {i : Instr}
    (hpart : (ctx.put w).PartOf final) (hdecode : decode w = some i)
    (hpc : s.pc = wordAddr tramp ctx.dst.length) :
    A64.step s = some (i.effect s.pc (wordAddr tramp (ctx.dst.length + 1)) s) := by
  have hfetch : s.fetch = w := by
    rw [A64.State.fetch, hpc]
    exact readWord_code hfits hload (getElem?_prefix_eq hpart.dst (List.getElem?_concat_length ..))
  rw [A64.step_of_decode (by rw [hfetch, hdecode]), ← wordAddr_succ, ← hpc]

/-! ## The rounds of the loop -/

theorem partOf_put (ctx : MakeTrampolineContext) (w : Word) : ctx.PartOf (ctx.put w) :=
  ⟨List.prefix_append _ _, List.prefix_refl _⟩

theorem partOf_ldrAddr (ctx : MakeTrampolineContext) (regno : Word) (addr : BitVec 64) :
    ctx.PartOf (ctx.ldrAddr regno addr) :=
  ⟨List.prefix_append _ _, List.prefix_append _ _⟩

theorem ldrAddr_dst_length (ctx : MakeTrampolineContext) (regno : Word) (addr : BitVec 64) :
    (ctx.ldrAddr regno addr).dst.length = ctx.dst.length + 1 := by
  simp [MakeTrampolineContext.ldrAddr]

theorem put_dst_length (ctx : MakeTrampolineContext) (w : Word) :
    (ctx.put w).dst.length = ctx.dst.length + 1 := by
  simp [MakeTrampolineContext.put]

/-- What every round does, whatever the instruction is. -/
structure Emits (ctx ctx' : MakeTrampolineContext) (regs : Word) : Prop where
  part : ctx.PartOf ctx'
  words : ctx'.dst.length ≤ ctx.dst.length + 3
  literals : ctx'.literalPool.length ≤ ctx.literalPool.length + 1
  availRegs : ctx'.availRegs = ctx.availRegs &&& ~~~regs

theorem emits_put (ctx : MakeTrampolineContext) (regs w : Word) :
    Emits ctx ({ ctx with availRegs := ctx.availRegs &&& ~~~regs }.put w) regs :=
  ⟨⟨List.prefix_append _ _, List.prefix_refl _⟩, by simp [MakeTrampolineContext.put],
    by simp [MakeTrampolineContext.put], rfl⟩

theorem emits_ldrAddr (ctx : MakeTrampolineContext) (regs regno : Word) (addr : BitVec 64) :
    Emits ctx ({ ctx with availRegs := ctx.availRegs &&& ~~~regs }.ldrAddr regno addr) regs :=
  ⟨⟨List.prefix_append _ _, List.prefix_append _ _⟩, by simp [MakeTrampolineContext.ldrAddr],
    by simp [MakeTrampolineContext.ldrAddr], rfl⟩

theorem emits_ldrAddr_put (ctx : MakeTrampolineContext) (regs regno w : Word) (addr : BitVec 64) :
    Emits ctx (({ ctx with availRegs := ctx.availRegs &&& ~~~regs }.ldrAddr regno addr).put w)
      regs :=
  ⟨((emits_ldrAddr ctx regs regno addr).part).trans (partOf_put _ _),
    by simp [MakeTrampolineContext.ldrAddr, MakeTrampolineContext.put],
    by simp [MakeTrampolineContext.ldrAddr, MakeTrampolineContext.put], rfl⟩

theorem emits_branchOver (ctx : MakeTrampolineContext) (regs inverted regno : Word)
    (addr : BitVec 64) :
    Emits ctx (branchOver { ctx with availRegs := ctx.availRegs &&& ~~~regs } inverted addr regno)
      regs :=
  ⟨((emits_put ctx regs inverted).part.trans (partOf_ldrAddr _ _ _)).trans (partOf_put _ _),
    by simp [branchOver, MakeTrampolineContext.ldrAddr, MakeTrampolineContext.put,
      MakeTrampolineContext.brByReg],
    by simp [branchOver, MakeTrampolineContext.ldrAddr, MakeTrampolineContext.put,
      MakeTrampolineContext.brByReg], rfl⟩

theorem moveInsn_emits {src : Addr 64} {ins : Word} {info : InsnInfo}
    {ctx ctx' : MakeTrampolineContext} (h : moveInsn src ins info ctx = .ok ctx') :
    Emits ctx ctx' info.regs := by
  cases hid : info.insnId
  all_goals simp only [moveInsn, hid] at h
  case other =>
    cases h
    exact emits_put ..
  case adr | adrp =>
    cases h
    exact emits_ldrAddr ..
  case b | bl =>
    obtain ⟨regno, -, h⟩ := exceptBind_ok h
    cases h
    exact emits_ldrAddr_put ..
  case bCond =>
    obtain ⟨regno, -, h⟩ := exceptBind_ok h
    split at h
    · cases h
      exact emits_branchOver ..
    · cases h
      exact emits_ldrAddr_put ..
  case cbnz | cbz | tbnz | tbz =>
    obtain ⟨regno, -, h⟩ := exceptBind_ok h
    cases h
    exact emits_branchOver ..
  case ldr | ldrsw | prfm =>
    split at h
    · cases h
      exact emits_put ..
    · obtain ⟨regno, -, h⟩ := exceptBind_ok h
      split at h
      · cases h
        exact emits_ldrAddr_put ..
      · cases h

theorem loopBody_ok {m : Mem 64} {func : Addr 64} {ctx ctx' : MakeTrampolineContext}
    {info : InsnInfo} (h : loopBody m func ctx info = .ok ctx') :
    ∃ moved, moveInsn (wordAddr func ctx.src) (insnAt m func ctx.src) info ctx = .ok moved ∧
      ctx' = { moved with src := nextSrc m func ctx.src } := by
  obtain ⟨moved, hmove, h⟩ := exceptBind_ok h
  exact ⟨moved, hmove, (Except.ok.inj h).symm⟩

theorem loopBody_emits {m : Mem 64} {func : Addr 64} {ctx ctx' : MakeTrampolineContext}
    {info : InsnInfo} (h : loopBody m func ctx info = .ok ctx') :
    Emits ctx ctx' info.regs ∧ ctx'.src = nextSrc m func ctx.src := by
  obtain ⟨moved, hmove, rfl⟩ := loopBody_ok h
  have hemits := moveInsn_emits hmove
  exact ⟨⟨⟨hemits.part.dst, hemits.part.literalPool⟩, hemits.words, hemits.literals,
    hemits.availRegs⟩, rfl⟩

theorem finishTrampoline_ok {m : Mem 64} {func : Addr 64} {ctx ctx' : MakeTrampolineContext}
    {rest : List InsnInfo} (h : finishTrampoline m func ctx rest = .ok ctx') :
    ∃ regno, toRegno ctx.availRegs = .ok regno ∧
      ctx' = (ctx.ldrAddr regno (wordAddr func ctx.src)).brByReg regno := by
  obtain ⟨regno, hregno, h⟩ := exceptBind_ok h
  dsimp only at h
  split at h
  · cases h
  · cases h
    exact ⟨regno, hregno, rfl⟩

/-- Before a round: at most three words and one literal have been emitted for each instruction. -/
structure RoundStart (ctx : MakeTrampolineContext) : Prop where
  src : ctx.src < rel4gJumpSize
  words : ctx.dst.length ≤ 3 * ctx.src
  literals : ctx.literalPool.length ≤ ctx.src

theorem roundStart_init : RoundStart .init := ⟨by decide, by decide, by decide⟩

theorem nextSrc_of_lt {m : Mem 64} {func : Addr 64} {src : ℕ}
    (h : nextSrc m func src < rel4gJumpSize) : nextSrc m func src = src + 1 := by
  unfold nextSrc at h ⊢
  split at h
  · exact absurd h (Nat.lt_irrefl 2)
  · rename_i hudf
    rw [if_neg hudf]

/-- A round that does not end the loop consumes one instruction. -/
theorem loopBody_roundStart {m : Mem 64} {func : Addr 64} {ctx ctx' : MakeTrampolineContext}
    {info : InsnInfo} (hstart : RoundStart ctx) (h : loopBody m func ctx info = .ok ctx')
    (hlt : ctx'.src < rel4gJumpSize) : RoundStart ctx' ∧ ctx'.src = ctx.src + 1 := by
  obtain ⟨hemits, hsrc⟩ := loopBody_emits h
  have hnext : ctx'.src = ctx.src + 1 := by
    rw [hsrc] at hlt ⊢
    exact nextSrc_of_lt hlt
  have := hemits.words
  have := hemits.literals
  have := hstart.words
  have := hstart.literals
  exact ⟨⟨hlt, by omega, by omega⟩, hnext⟩

/-- **The loop keeps what it has emitted, and stays within the trampoline.** -/
theorem moveInsns_partOf {m : Mem 64} {func : Addr 64} {infos : List InsnInfo}
    {ctx final : MakeTrampolineContext} (hstart : RoundStart ctx)
    (h : moveInsns m func infos ctx = .ok final) : ctx.PartOf final ∧ final.Fits := by
  have htwo : rel4gJumpSize = 2 := rfl
  have height : literalPoolOffset = 8 := rfl
  have hthree : literalPoolNum = 3 := rfl
  induction infos generalizing ctx with
  | nil =>
    cases h
    have := hstart.src
    have := hstart.words
    have := hstart.literals
    exact ⟨partOf_refl _, by omega, by omega⟩
  | cons info rest ih =>
    obtain ⟨ctx₁, hbody, h⟩ := exceptBind_ok h
    have hemits := (loopBody_emits hbody).1
    split at h
    · obtain ⟨regno, -, hfinal⟩ := finishTrampoline_ok h
      have := hstart.src
      have := hstart.words
      have := hstart.literals
      have := hemits.words
      have := hemits.literals
      rw [hfinal]
      refine ⟨hemits.part.trans ((partOf_ldrAddr _ _ _).trans (partOf_put _ _)), ?_, ?_⟩
      · rw [MakeTrampolineContext.brByReg, put_dst_length, ldrAddr_dst_length]
        omega
      · simp only [MakeTrampolineContext.brByReg, MakeTrampolineContext.put,
          MakeTrampolineContext.ldrAddr, List.length_append, List.length_singleton]
        omega
    · rename_i hlt
      obtain ⟨hpart, hfits⟩ := ih (loopBody_roundStart hstart hbody (Nat.lt_of_not_le hlt)).1 h
      exact ⟨hemits.part.trans hpart, hfits⟩

/-- The loop, started with `ctx` on a list of instructions, comes to `ctx'` with the others left. -/
inductive Reaches (m : Mem 64) (func : Addr 64) : MakeTrampolineContext → List InsnInfo →
    MakeTrampolineContext → List InsnInfo → Prop
  | here (ctx : MakeTrampolineContext) (infos : List InsnInfo) : Reaches m func ctx infos ctx infos
  | next {ctx ctx₁ ctx' : MakeTrampolineContext} {info : InsnInfo} {rest infos : List InsnInfo} :
      loopBody m func ctx info = .ok ctx₁ → ctx₁.src < rel4gJumpSize →
        Reaches m func ctx₁ rest ctx' infos → Reaches m func ctx (info :: rest) ctx' infos

/-- What a context reached from the start of the loop knows about the instructions before it. -/
structure LoopInv (all : List InsnInfo) (ctx : MakeTrampolineContext) (infos : List InsnInfo) :
    Prop where
  start : RoundStart ctx
  left : infos = all.drop ctx.src
  avail : ∀ b, ctx.availRegs.getLsbD b = true → 9 ≤ b ∧ b ≤ 15 ∧
    ∀ j < ctx.src, ∀ info, all[j]? = some info → info.regs.getLsbD b = false

theorem LoopInv.at_src {all rest : List InsnInfo} {info : InsnInfo} {ctx : MakeTrampolineContext}
    (h : LoopInv all ctx (info :: rest)) : all[ctx.src]? = some info := by
  rw [← List.head?_drop, ← h.left]
  rfl

theorem loopInv_step {m : Mem 64} {func : Addr 64} {all rest : List InsnInfo} {info : InsnInfo}
    {ctx ctx₁ : MakeTrampolineContext} (hinv : LoopInv all ctx (info :: rest))
    (hbody : loopBody m func ctx info = .ok ctx₁) (hlt : ctx₁.src < rel4gJumpSize) :
    LoopInv all ctx₁ rest := by
  obtain ⟨hstart, hsrc⟩ := loopBody_roundStart hinv.start hbody hlt
  have hat := hinv.at_src
  refine ⟨hstart, ?_, fun b hb => ?_⟩
  · rw [hsrc, ← List.drop_drop, ← hinv.left]
    rfl
  · rw [(loopBody_emits hbody).1.availRegs, BitVec.getLsbD_and, BitVec.getLsbD_not,
      Bool.and_eq_true, Bool.and_eq_true] at hb
    obtain ⟨hlower, hupper, hbefore⟩ := hinv.avail b hb.1
    refine ⟨hlower, hupper, fun j hj info' hinfo' => ?_⟩
    rcases Nat.lt_or_eq_of_le (Nat.le_of_lt_succ (hsrc ▸ hj)) with hlt | rfl
    · exact hbefore j hlt info' hinfo'
    · rw [hat] at hinfo'
      cases hinfo'
      simpa using hb.2.2

theorem reaches_loopInv {m : Mem 64} {func : Addr 64} {all : List InsnInfo}
    {ctx ctx' : MakeTrampolineContext} {infos infos' : List InsnInfo}
    (h : Reaches m func ctx infos ctx' infos') (hinv : LoopInv all ctx infos) :
    LoopInv all ctx' infos' := by
  induction h with
  | here ctx infos => exact hinv
  | next hbody hlt _ ih => exact ih (loopInv_step hinv hbody hlt)

theorem loopInv_init (all : List InsnInfo) : LoopInv all .init all where
  start := roundStart_init
  left := rfl
  avail := by
    intro b hb
    have hcorruptible : ∀ b : Fin 32, corruptibleRegs.getLsbD b = true →
        9 ≤ b.val ∧ b.val ≤ 15 := by
      decide
    have hb32 : b < 32 := by
      by_contra hge
      rw [MakeTrampolineContext.init, BitVec.getLsbD_of_ge _ _ (Nat.le_of_not_lt hge)] at hb
      cases hb
    obtain ⟨hlower, hupper⟩ := hcorruptible ⟨b, hb32⟩ hb
    exact ⟨hlower, hupper, fun j hj => absurd hj (Nat.not_lt_zero j)⟩

theorem reaches_moveInsns {m : Mem 64} {func : Addr 64} {ctx ctx' : MakeTrampolineContext}
    {infos infos' : List InsnInfo} (h : Reaches m func ctx infos ctx' infos') :
    moveInsns m func infos ctx = moveInsns m func infos' ctx' := by
  induction h with
  | here ctx infos => rfl
  | next hbody hlt _ ih =>
    rw [← ih, moveInsns, hbody]
    exact if_neg (Nat.not_le_of_lt hlt)

/-- What a round emits is part of the trampoline that the loop ends with. -/
theorem loopBody_partOf {m : Mem 64} {func : Addr 64} {infos rest : List InsnInfo}
    {info : InsnInfo} {ctx ctx' final : MakeTrampolineContext}
    (hreached : Reaches m func .init infos ctx (info :: rest))
    (hbody : loopBody m func ctx info = .ok ctx')
    (h : moveInsns m func infos .init = .ok final) : ctx'.PartOf final ∧ final.Fits := by
  have hstart := (reaches_loopInv hreached (loopInv_init infos)).start
  rw [reaches_moveInsns hreached] at h
  refine ⟨?_, (moveInsns_partOf hstart h).2⟩
  rw [moveInsns, hbody] at h
  change (if ctx'.src ≥ rel4gJumpSize then _ else _) = _ at h
  split at h
  · obtain ⟨regno, -, rfl⟩ := finishTrampoline_ok h
    exact (partOf_ldrAddr _ _ _).trans (partOf_put _ _)
  · rename_i hlt
    exact (moveInsns_partOf (loopBody_roundStart hstart hbody (Nat.lt_of_not_le hlt)).1 h).1

theorem funchookMakeTrampoline_ok {disasm : Disasm} {m : Mem 64} {func : Addr 64}
    {infos : List InsnInfo} {final : MakeTrampolineContext} (hdecoded : disasm m func = .ok infos)
    (h : funchookMakeTrampoline disasm m func = .ok final) :
    moveInsns m func infos .init = .ok final ∧ rel4gJumpSize ≤ final.src := by
  rw [funchookMakeTrampoline, hdecoded] at h
  obtain ⟨infos', hinfos, hrest⟩ := exceptBind_ok h
  cases hinfos
  obtain ⟨ctx, hmove, hend⟩ := exceptBind_ok hrest
  split at hend
  · cases hend
  · rename_i hge
    cases hend
    exact ⟨hmove, Nat.le_of_not_lt hge⟩

@[simp] theorem trampolineBytes_length (ctx : MakeTrampolineContext) :
    ctx.trampolineBytes.length = 4 * trampolineSize := by
  simp [MakeTrampolineContext.trampolineBytes]

theorem trampolineBytes_small (ctx : MakeTrampolineContext) :
    ctx.trampolineBytes.length ≤ 2 ^ 64 := by
  rw [trampolineBytes_length]
  decide

/-- A memory into which the trampoline was copied holds it. -/
theorem loadedAt_write (ctx : MakeTrampolineContext) (tramp : Addr 64) (m : Mem 64) :
    ctx.LoadedAt tramp (write m tramp ctx.trampolineBytes) := by
  rw [MakeTrampolineContext.LoadedAt, ← trampolineBytes_length ctx]
  exact readBytes_write _ _ (trampolineBytes_small ctx)

end Funchook.Arm64
