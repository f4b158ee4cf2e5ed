import Funchook.BackJumpArm64

/-!
# The layout of an AArch64 trampoline

Code and literal pool share one array: the code grows from its start, the pool from
`LITERAL_POOL_OFFSET`. The invariant of the loop says of every word emitted so far where it leads:
a literal load to the slot that was filled along with it, an inverted branch to the word behind
the jump that it skips. Both are distances within the trampoline, so they hold wherever it stands.
-/

namespace Funchook.Arm64

open ByteMemory
open A64 (Reg Instr LoadKind field decode wordOffset)

/-! ## Words and where they lead -/

/-- The words at `j` load the address of a slot into a register and branch to it. -/
def PairAt (ctx : MakeTrampolineContext) (j : ℕ) (r : Reg) (imm : BitVec 19) : Prop :=
  ∃ load jump, ctx.dst[j]? = some load ∧ decode load = some (.ldrLit .x r imm) ∧
    ctx.dst[j + 1]? = some jump ∧ decode jump = some (.br r)

/-- The literal load at the word `j` designates the slot `k`, wherever the trampoline stands. -/
def Designates (j : ℕ) (imm : BitVec 19) (k : ℕ) : Prop :=
  ∀ tramp, wordAddr tramp j + wordOffset imm = wordAddr tramp (literalPoolOffset + 2 * k)

/-- Every literal load designates a slot in use, and `own` relates its position to what the slot
holds. -/
def LiteralsOk (own : ℕ → Addr 64 → Prop) (ctx : MakeTrampolineContext) : Prop :=
  ∀ j word kind rt imm, ctx.dst[j]? = some word → decode word = some (.ldrLit kind rt imm) →
    ∃ k addr, ctx.literalPool[k]? = some addr ∧ Designates j imm k ∧ own j addr

/-- Every conditional branch leads to the first word behind the pair that follows it. -/
def SkipsOk (ctx : MakeTrampolineContext) : Prop :=
  ∀ j word i off, ctx.dst[j]? = some word → decode word = some i → i.branchOffset = some off →
    (∀ tramp, wordAddr tramp j + off = wordAddr tramp (j + 3)) ∧ ∃ r imm, PairAt ctx (j + 1) r imm

/-- The invariant of the loop. -/
structure LayoutInv (own : ℕ → Addr 64 → Prop) (ctx : MakeTrampolineContext) : Prop where
  literals : LiteralsOk own ctx
  skips : SkipsOk ctx

/-- A word without a literal and without a condition. -/
structure Inert (word : Word) : Prop where
  literal : ∀ kind rt imm, decode word ≠ some (.ldrLit kind rt imm)
  branch : ∀ i, decode word = some i → i.branchOffset = none

theorem inert_of_decode {word : Word} {i : Instr} (hdecode : decode word = some i)
    (hlit : ∀ kind rt imm, i ≠ .ldrLit kind rt imm) (hbranch : i.branchOffset = none) :
    Inert word := by
  refine ⟨?_, ?_⟩
  · intro kind rt imm h
    rw [hdecode] at h
    exact hlit kind rt imm (Option.some.inj h)
  · intro i' h
    rw [hdecode] at h
    cases h
    exact hbranch

theorem inert_of_none {word : Word} (hdecode : decode word = none) : Inert word := by
  refine ⟨?_, ?_⟩
  · intro kind rt imm h
    rw [hdecode] at h
    cases h
  · intro i h
    rw [hdecode] at h
    cases h

theorem inert_ldrReg {word : Word} {kind : LoadKind} {rt rn : Reg}
    (h : decode word = some (.ldrReg kind rt rn)) : Inert word :=
  inert_of_decode h (fun _ _ _ heq => by cases heq) rfl

theorem inert_br {word : Word} {rn : Reg} (h : decode word = some (.br rn)) : Inert word :=
  inert_of_decode h (fun _ _ _ heq => by cases heq) rfl

theorem inert_blr {word : Word} {rn : Reg} (h : decode word = some (.blr rn)) : Inert word :=
  inert_of_decode h (fun _ _ _ heq => by cases heq) rfl

/-! ## Emitting words -/

/-- A word of a list with one more at the end. -/
theorem getElem?_concat_cases {α : Type} {l : List α} {a b : α} {j : ℕ}
    (h : (l ++ [b])[j]? = some a) : l[j]? = some a ∨ j = l.length ∧ a = b := by
  rcases Nat.lt_trichotomy j l.length with hlt | rfl | hgt
  · rw [List.getElem?_append_left hlt] at h
    exact Or.inl h
  · rw [List.getElem?_concat_length] at h
    exact Or.inr ⟨rfl, (Option.some.inj h).symm⟩
  · rw [List.getElem?_eq_none (by rw [List.length_append]; exact hgt)] at h
    cases h

theorem PairAt.partOf {ctx final : MakeTrampolineContext} {j : ℕ} {r : Reg} {imm : BitVec 19}
    (h : PairAt ctx j r imm) (hpart : ctx.PartOf final) : PairAt final j r imm := by
  obtain ⟨load, jump, hload, hdecode, hjump, hbr⟩ := h
  exact ⟨load, jump, getElem?_prefix_eq hpart.dst hload, hdecode,
    getElem?_prefix_eq hpart.dst hjump, hbr⟩

theorem literalsOk_put {own : ℕ → Addr 64 → Prop} {ctx : MakeTrampolineContext}
    (h : LiteralsOk own ctx) {word : Word}
    (hword : ∀ kind rt imm, decode word ≠ some (.ldrLit kind rt imm)) :
    LiteralsOk own (ctx.put word) := by
  intro j word' kind rt imm hat hdecode
  rcases getElem?_concat_cases hat with hold | ⟨-, rfl⟩
  · exact h j word' kind rt imm hold hdecode
  · exact absurd hdecode (hword kind rt imm)

theorem literalsOk_ldrAddr {own : ℕ → Addr 64 → Prop} {ctx : MakeTrampolineContext}
    (h : LiteralsOk own ctx) {r : Reg} {addr : BitVec 64}
    (hd : ctx.dst.length < literalPoolOffset) (hk : ctx.literalPool.length < literalPoolNum)
    (hown : own ctx.dst.length addr) : LiteralsOk own (ctx.ldrAddr (field 0 r) addr) := by
  obtain ⟨imm, hdst, hdesignates⟩ := @ldrAddr_word ctx r addr hd hk
  intro j word kind rt imm' hat hdecode
  rw [hdst] at hat
  rcases getElem?_concat_cases hat with hold | ⟨rfl, rfl⟩
  · obtain ⟨k, addr', hslot, hdes, hown'⟩ := h j word kind rt imm' hold hdecode
    exact ⟨k, addr', getElem?_prefix_eq (List.prefix_append _ _) hslot, hdes, hown'⟩
  · rw [A64.decode_encode] at hdecode
    cases hdecode
    exact ⟨ctx.literalPool.length, addr, List.getElem?_concat_length .., hdesignates, hown⟩

theorem skipsOk_put {ctx : MakeTrampolineContext} (h : SkipsOk ctx) {word : Word}
    (hword : ∀ i, decode word = some i → i.branchOffset = none) : SkipsOk (ctx.put word) := by
  intro j word' i off hat hdecode hoff
  rcases getElem?_concat_cases hat with hold | ⟨-, rfl⟩
  · obtain ⟨hskip, r, imm, hpair⟩ := h j word' i off hold hdecode hoff
    exact ⟨hskip, r, imm, hpair.partOf (partOf_put ctx word)⟩
  · rw [hword i hdecode] at hoff
    cases hoff

theorem skipsOk_ldrAddr {ctx : MakeTrampolineContext} (h : SkipsOk ctx) {r : Reg}
    {addr : BitVec 64} (hd : ctx.dst.length < literalPoolOffset)
    (hk : ctx.literalPool.length < literalPoolNum) : SkipsOk (ctx.ldrAddr (field 0 r) addr) := by
  obtain ⟨imm, hdst, -⟩ := @ldrAddr_word ctx r addr hd hk
  intro j word i off hat hdecode hoff
  rw [hdst] at hat
  rcases getElem?_concat_cases hat with hold | ⟨-, rfl⟩
  · obtain ⟨hskip, r', imm', hpair⟩ := h j word i off hold hdecode hoff
    exact ⟨hskip, r', imm', hpair.partOf (partOf_ldrAddr ctx _ addr)⟩
  · rw [A64.decode_encode] at hdecode
    cases hdecode
    cases hoff

/-- `LDR_ADDR` and `BR_BY_REG` make a pair. -/
theorem pairAt_ldrAddr {ctx : MakeTrampolineContext} {r : Reg} {addr : BitVec 64}
    (hd : ctx.dst.length < literalPoolOffset) (hk : ctx.literalPool.length < literalPoolNum) :
    ∃ imm, PairAt ((ctx.ldrAddr (field 0 r) addr).brByReg (field 0 r)) ctx.dst.length r imm ∧
      Designates ctx.dst.length imm ctx.literalPool.length := by
  obtain ⟨imm, hdst, hdesignates⟩ := @ldrAddr_word ctx r addr hd hk
  have hlen := ldrAddr_dst_length ctx (field 0 r) addr
  refine ⟨imm, ⟨_, _, ?_, A64.decode_encode _, ?_, decode_brByReg r⟩, hdesignates⟩
  · refine getElem?_prefix_eq (partOf_put _ _).dst ?_
    rw [hdst]
    exact List.getElem?_concat_length ..
  · rw [← hlen]
    exact List.getElem?_concat_length ..

theorem skipsOk_branchOver {ctx : MakeTrampolineContext} (h : SkipsOk ctx) {inverted : Word}
    {i : Instr} {r : Reg} {addr : BitVec 64} (hd : ctx.dst.length + 1 < literalPoolOffset)
    (hk : ctx.literalPool.length < literalPoolNum) (hdecode : decode inverted = some i)
    (hoff : i.branchOffset = some 12) :
    SkipsOk (branchOver ctx inverted addr (field 0 r)) := by
  have hlen := put_dst_length ctx inverted
  obtain ⟨imm, hpair, -⟩ := @pairAt_ldrAddr (ctx.put inverted) r addr (by omega) hk
  obtain ⟨imm', hdst, -⟩ := @ldrAddr_word (ctx.put inverted) r addr (by omega) hk
  rw [hlen] at hpair
  have hpart : ctx.PartOf (branchOver ctx inverted addr (field 0 r)) :=
    (partOf_put ctx inverted).trans ((partOf_ldrAddr _ _ _).trans (partOf_put _ _))
  intro j word i' off hat hdecode' hoff'
  -- the word is the `br`, the load, the inverted branch, or one emitted before
  rcases getElem?_concat_cases hat with hat | ⟨-, rfl⟩
  · rw [hdst] at hat
    rcases getElem?_concat_cases hat with hat | ⟨-, rfl⟩
    · rcases getElem?_concat_cases hat with hold | ⟨rfl, rfl⟩
      · obtain ⟨hskip, r', imm'', hpair'⟩ := h j word i' off hold hdecode' hoff'
        exact ⟨hskip, r', imm'', hpair'.partOf hpart⟩
      · rw [hdecode] at hdecode'
        cases hdecode'
        rw [hoff] at hoff'
        cases hoff'
        exact ⟨fun tramp => wordAddr_add tramp ctx.dst.length 3, r, imm, hpair⟩
    · rw [A64.decode_encode] at hdecode'
      cases hdecode'
      cases hoff'
  · rw [decode_brByReg r] at hdecode'
    cases hdecode'
    cases hoff'

theorem LayoutInv.put {own : ℕ → Addr 64 → Prop} {ctx : MakeTrampolineContext}
    (h : LayoutInv own ctx) {word : Word} (hinert : Inert word) : LayoutInv own (ctx.put word) :=
  ⟨literalsOk_put h.literals hinert.literal, skipsOk_put h.skips hinert.branch⟩

theorem LayoutInv.ldrAddr {own : ℕ → Addr 64 → Prop} {ctx : MakeTrampolineContext}
    (h : LayoutInv own ctx) {r : Reg} {addr : BitVec 64}
    (hd : ctx.dst.length < literalPoolOffset) (hk : ctx.literalPool.length < literalPoolNum)
    (hown : own ctx.dst.length addr) : LayoutInv own (ctx.ldrAddr (field 0 r) addr) :=
  ⟨literalsOk_ldrAddr h.literals hd hk hown, skipsOk_ldrAddr h.skips hd hk⟩

theorem LayoutInv.branchOver {own : ℕ → Addr 64 → Prop} {ctx : MakeTrampolineContext}
    (h : LayoutInv own ctx) {inverted : Word} {i : Instr} {r : Reg} {addr : BitVec 64}
    (hd : ctx.dst.length + 1 < literalPoolOffset) (hk : ctx.literalPool.length < literalPoolNum)
    (hdecode : decode inverted = some i) (hoff : i.branchOffset = some 12)
    (hown : own (ctx.dst.length + 1) addr) :
    LayoutInv own (branchOver ctx inverted addr (field 0 r)) := by
  have hlen := put_dst_length ctx inverted
  have hinverted : ∀ kind rt imm, decode inverted ≠ some (.ldrLit kind rt imm) := by
    intro kind rt imm hlit
    rw [hdecode] at hlit
    cases hlit
    cases hoff
  refine ⟨?_, skipsOk_branchOver h.skips hd hk hdecode hoff⟩
  refine literalsOk_put (literalsOk_ldrAddr (literalsOk_put h.literals hinverted) ?_ hk ?_)
    (inert_br (decode_brByReg r)).literal
  · rw [hlen]
    exact hd
  · rw [hlen]
    exact hown

/-! ## One instruction -/

theorem moveInsn_copied {src : Addr 64} {word : Word} {info : InsnInfo}
    {ctx moved : MakeTrampolineContext}
    (hid : info.insnId = .other ∨ IsLoad info.insnId ∧ word.getLsbD 29 = true)
    (h : moveInsn src word info ctx = .ok moved) : moved = (used ctx info).put word := by
  rcases hid with hother | ⟨hload, hbit⟩
  · simp only [moveInsn, hother] at h
    exact (Except.ok.inj h).symm
  · rw [moveInsn_load _ _ _ hload, if_pos ((bit29_set _).mpr hbit)] at h
    exact (Except.ok.inj h).symm

theorem LayoutInv.used {own : ℕ → Addr 64 → Prop} {ctx : MakeTrampolineContext}
    (h : LayoutInv own ctx) (info : InsnInfo) : LayoutInv own (used ctx info) :=
  ⟨h.literals, h.skips⟩

/-- Room for one more expansion, as there is at the start of a round. -/
structure Room (ctx : MakeTrampolineContext) : Prop where
  dst : ctx.dst.length + 1 < literalPoolOffset
  literalPool : ctx.literalPool.length < literalPoolNum

section Round

variable {own : ℕ → Addr 64 → Prop} {src : Addr 64} {word : Word} {info : InsnInfo}
  {ctx moved : MakeTrampolineContext}

/-- `own` holds of the target of the instruction, at the words emitted for it. -/
def Owns (own : ℕ → Addr 64 → Prop) (src : Addr 64) (word : Word)
    (ctx moved : MakeTrampolineContext) : Prop :=
  ∀ i addr, decode word = some i → i.pcTarget src = some addr →
    ∀ j, ctx.dst.length ≤ j → j < moved.dst.length → own j addr

/-- An instruction that becomes `LDR_ADDR` alone. -/
theorem layout_ldrAddr (hroom : Room ctx) (hinv : LayoutInv own ctx)
    (hown : Owns own src word ctx moved) {r : Reg} {addr : BitVec 64} {i : Instr}
    (hdecode : decode word = some i) (htarget : i.pcTarget src = some addr)
    (hmoved : moved = (used ctx info).ldrAddr (field 0 r) addr) : LayoutInv own moved := by
  have hlen := ldrAddr_dst_length (used ctx info) (field 0 r) addr
  rw [used_dst] at hlen
  have hat := hown i addr hdecode htarget ctx.dst.length (Nat.le_refl _)
    (by rw [hmoved, hlen]; exact Nat.lt_succ_self _)
  rw [hmoved]
  exact (hinv.used info).ldrAddr (Nat.lt_of_succ_lt hroom.dst) hroom.literalPool hat

/-- An instruction that becomes `LDR_ADDR` and a word that uses the register. -/
theorem layout_ldrAddr_put (hroom : Room ctx) (hinv : LayoutInv own ctx)
    (hown : Owns own src word ctx moved) {r : Reg} {addr : BitVec 64} {next : Word} {i : Instr}
    (hdecode : decode word = some i) (htarget : i.pcTarget src = some addr) (hinert : Inert next)
    (hmoved : moved = ((used ctx info).ldrAddr (field 0 r) addr).put next) :
    LayoutInv own moved := by
  have hlen := ldrAddr_put_dst_length (used ctx info) (field 0 r) next addr
  rw [used_dst] at hlen
  have hat := hown i addr hdecode htarget ctx.dst.length (Nat.le_refl _)
    (by rw [hmoved, hlen]; exact Nat.lt_add_of_pos_right (by decide))
  rw [hmoved]
  exact ((hinv.used info).ldrAddr (Nat.lt_of_succ_lt hroom.dst) hroom.literalPool hat).put hinert

theorem layout_conditional (hroom : Room ctx) (hinv : LayoutInv own ctx)
    (hown : Owns own src word ctx moved) {i : Instr} {off : BitVec 64}
    (hdecode : decode word = some i) (hoff : i.branchOffset = some off)
    (htarget : i.pcTarget src = some (src + off)) (hid : info.insnId = insnIdOf i)
    (h : moveInsn src word info ctx = .ok moved) : LayoutInv own moved := by
  obtain ⟨regno, hregno, hshape⟩ := moveInsn_conditional hdecode hoff hid h
  obtain ⟨r, rfl, -, -⟩ := toRegno_ok hregno
  rcases hshape with ⟨imm, -, hmoved⟩ | ⟨inverted, j, hj, hjoff, -, -, hmoved⟩
  · exact layout_ldrAddr_put hroom hinv hown hdecode htarget (inert_br (decode_brByReg r)) hmoved
  · have hlen := branchOver_dst_length (used ctx info) inverted (field 0 r) (src + off)
    rw [used_dst] at hlen
    have hat := hown i _ hdecode htarget (ctx.dst.length + 1) (Nat.le_succ _)
      (by rw [hmoved, hlen]; exact Nat.add_lt_add_left (by decide) _)
    rw [hmoved]
    exact (hinv.used info).branchOver hroom.dst hroom.literalPool hj hjoff hat

/-- **One instruction.** The words emitted for it lead where they should. -/
theorem moveInsn_layout (hid : ∀ i, decode word = some i → info.insnId = insnIdOf i)
    (hothers : decode word = none →
      info.insnId = .other ∨ IsLoad info.insnId ∧ word.getLsbD 29 = true)
    (hroom : Room ctx) (hinv : LayoutInv own ctx) (hown : Owns own src word ctx moved)
    (h : moveInsn src word info ctx = .ok moved) : LayoutInv own moved := by
  have hcopied : Inert word → moved = (used ctx info).put word → LayoutInv own moved := by
    intro hinert hmoved
    rw [hmoved]
    exact (hinv.used info).put hinert
  cases hdecode : decode word with
  | none => exact hcopied (inert_of_none hdecode) (moveInsn_copied (hothers hdecode) h)
  | some i =>
    have hclass := hid i hdecode
    cases i with
    | adr rd imm => exact layout_ldrAddr hroom hinv hown hdecode rfl (moveInsn_adr hdecode hclass h)
    | adrp rd imm =>
      exact layout_ldrAddr hroom hinv hown hdecode rfl (moveInsn_adrp hdecode hclass h)
    | b imm =>
      obtain ⟨regno, hregno, hmoved⟩ := moveInsn_branch (Or.inl hclass) h
      obtain ⟨r, rfl, -, -⟩ := toRegno_ok hregno
      rw [(A64.decode_b hdecode).2] at hmoved
      exact layout_ldrAddr_put hroom hinv hown hdecode rfl
        (inert_br (decode_branchByReg_b hdecode r)) hmoved
    | bl imm =>
      obtain ⟨regno, hregno, hmoved⟩ := moveInsn_branch (Or.inr hclass) h
      obtain ⟨r, rfl, -, -⟩ := toRegno_ok hregno
      rw [(A64.decode_bl hdecode).2] at hmoved
      exact layout_ldrAddr_put hroom hinv hown hdecode rfl
        (inert_blr (decode_branchByReg_bl hdecode r)) hmoved
    | bcond cond imm => exact layout_conditional hroom hinv hown hdecode rfl rfl hclass h
    | cbz sf nonzero rt imm => exact layout_conditional hroom hinv hown hdecode rfl rfl hclass h
    | tbz nonzero pos rt imm => exact layout_conditional hroom hinv hown hdecode rfl rfl hclass h
    | ldrLit kind rt imm =>
      obtain ⟨regno, opcode, hregno, hopcode, hmoved⟩ :=
        moveInsn_ldrLit hdecode (hclass ▸ isLoad_insnIdOf kind rt imm) h
      obtain ⟨r, rfl, -, -⟩ := toRegno_ok hregno
      obtain ⟨opcode', hopcode', hload⟩ := decode_loadByReg hdecode r
      obtain rfl : opcode = opcode' := Option.some.inj (hopcode.symm.trans hopcode')
      exact layout_ldrAddr_put hroom hinv hown hdecode rfl (inert_ldrReg hload) hmoved
    | ldrReg kind rt rn =>
      have hset := A64.decode_ldrReg hdecode
      have hload : IsLoad info.insnId := by
        rw [hclass]
        cases kind <;> simp [IsLoad, insnIdOf]
      exact hcopied (inert_ldrReg hdecode)
        (moveInsn_copied (Or.inr ⟨hload, by simpa [BitVec.eq_of_getLsbD_eq_iff] using hset⟩) h)
    | br rn => exact hcopied (inert_br hdecode) (moveInsn_copied (Or.inl hclass) h)
    | blr rn => exact hcopied (inert_blr hdecode) (moveInsn_copied (Or.inl hclass) h)

end Round

/-! ## The loop -/

theorem reaches_step {m : Mem 64} {func : Addr 64} {ctx ctx₁ ctx₂ : MakeTrampolineContext}
    {infos rest : List InsnInfo} {info : InsnInfo}
    (h : Reaches m func ctx infos ctx₁ (info :: rest))
    (hbody : loopBody m func ctx₁ info = .ok ctx₂)
    (hlt : ctx₂.src < rel4gJumpSize) : Reaches m func ctx infos ctx₂ rest := by
  generalize htail : info :: rest = tail at h
  induction h with
  | here ctx infos =>
    subst htail
    exact .next hbody hlt (.here ctx₂ rest)
  | next hbody' hlt' _ ih => exact .next hbody' hlt' (ih hbody htail)

/-- `addr` is the address that the instruction of the function computes for which the word `j` was
emitted. -/
def ComputedFor (m : Mem 64) (func : Addr 64) (infos : List InsnInfo) (j : ℕ) (addr : Addr 64) :
    Prop :=
  ∃ ctx ctx' info rest i, Reaches m func .init infos ctx (info :: rest) ∧
    loopBody m func ctx info = .ok ctx' ∧ ctx.dst.length ≤ j ∧ j < ctx'.dst.length ∧
      decode (insnAt m func ctx.src) = some i ∧ i.pcTarget (wordAddr func ctx.src) = some addr

theorem loopBody_layout {m : Mem 64} {func : Addr 64} {infos rest : List InsnInfo}
    {info : InsnInfo} {ctx ctx' : MakeTrampolineContext} (hclass : Classified m func infos)
    (hreached : Reaches m func .init infos ctx (info :: rest))
    (hbody : loopBody m func ctx info = .ok ctx')
    (hinv : LayoutInv (ComputedFor m func infos) ctx) :
    LayoutInv (ComputedFor m func infos) ctx' := by
  have hloop := reaches_loopInv hreached (loopInv_init infos)
  have hat := hloop.at_src
  have htwo : rel4gJumpSize = 2 := rfl
  have height : literalPoolOffset = 8 := rfl
  have hthree : literalPoolNum = 3 := rfl
  have hsrc := hloop.start.src
  have hwords := hloop.start.words
  have hpool := hloop.start.literals
  obtain ⟨moved, hmove, hctx'⟩ := loopBody_ok hbody
  have hmoved : LayoutInv (ComputedFor m func infos) moved := by
    refine moveInsn_layout (hclass.insnId _ info · hat) (hclass.others _ info hat)
      ⟨by omega, by omega⟩ hinv ?_ hmove
    intro i addr hdecode htarget j hlower hupper
    exact ⟨ctx, ctx', info, rest, i, hreached, hbody, hlower, by rw [hctx']; exact hupper, hdecode,
      htarget⟩
  rw [hctx']
  exact ⟨hmoved.literals, hmoved.skips⟩

/-- What each literal of a finished trampoline is: computed for an instruction, or the address
behind the patch in the last pair. -/
def LiteralOf (m : Mem 64) (func : Addr 64) (infos : List InsnInfo) (final : MakeTrampolineContext)
    (j : ℕ) (addr : Addr 64) : Prop :=
  (j + 2 < final.dst.length ∧ ComputedFor m func infos j addr) ∨
    (j + 2 = final.dst.length ∧ addr = wordAddr func rel4gJumpSize)

/-- The last pair goes on behind the patch, through a register that no moved instruction reads or
writes. -/
def EndsBehindPatch (accesses : Word → Reg → Prop) (m : Mem 64) (func : Addr 64)
    (final : MakeTrampolineContext) : Prop :=
  ∃ j k r imm, final.dst.length = j + 2 ∧ PairAt final j r imm ∧ Designates j imm k ∧
    final.literalPool[k]? = some (wordAddr func rel4gJumpSize) ∧ Corruptible r ∧
      ∀ i < movedCount m func, ¬accesses (insnAt m func i) r

/-- The layout of a finished trampoline. -/
structure Layout (accesses : Word → Reg → Prop) (m : Mem 64) (func : Addr 64)
    (infos : List InsnInfo) (final : MakeTrampolineContext) : Prop where
  code : final.dst.length ≤ literalPoolOffset
  pool : final.literalPool.length ≤ literalPoolNum
  literals : LiteralsOk (LiteralOf m func infos final) final
  skips : SkipsOk final
  jump : EndsBehindPatch accesses m func final
  loaded : ∀ tramp mem, final.LoadedAt tramp mem →
    (∀ (j : ℕ) word, final.dst[j]? = some word → readWord 4 mem (wordAddr tramp j) = word) ∧
      ∀ (k : ℕ) addr, final.literalPool[k]? = some addr →
        readWord 8 mem (wordAddr tramp (literalPoolOffset + 2 * k)) = addr

/-- The round that ends the loop leaves the pointer behind the second word. -/
theorem nextSrc_of_ge {m : Mem 64} {func : Addr 64} {src : ℕ} (hlt : src < rel4gJumpSize)
    (hge : rel4gJumpSize ≤ nextSrc m func src) :
    nextSrc m func src = rel4gJumpSize ∧ movedCount m func ≤ src + 1 := by
  have htwo : rel4gJumpSize = 2 := rfl
  unfold nextSrc movedCount at *
  by_cases hudf : branchThenUdf m func = true
  · rw [if_pos hudf, if_pos hudf]
    exact ⟨rfl, Nat.le_add_left 1 src⟩
  · rw [if_neg hudf] at hge ⊢
    rw [if_neg hudf]
    omega

theorem finishTrampoline_layout {accesses : Word → Reg → Prop} {disasm : Disasm} {m : Mem 64}
    {func : Addr 64} {infos rest : List InsnInfo} {info : InsnInfo}
    {ctx ctx' final : MakeTrampolineContext} (hreports : Reports accesses disasm m func infos)
    (hreached : Reaches m func .init infos ctx (info :: rest))
    (hbody : loopBody m func ctx info = .ok ctx') (hge : rel4gJumpSize ≤ ctx'.src)
    (hinv : LayoutInv (ComputedFor m func infos) ctx')
    (h : finishTrampoline m func ctx' rest = .ok final) (hfits : final.Fits) :
    Layout accesses m func infos final := by
  have hloop := reaches_loopInv hreached (loopInv_init infos)
  obtain ⟨hemits, hsrc⟩ := loopBody_emits hbody
  obtain ⟨hend, hcount⟩ := nextSrc_of_ge hloop.start.src (hsrc ▸ hge)
  obtain ⟨regno, hregno, hfinal⟩ := finishTrampoline_ok h
  have hused : toRegno (used ctx info).availRegs = .ok regno := by
    rw [hemits.availRegs] at hregno
    exact hregno
  obtain ⟨r, rfl, hscratch⟩ := scratch_of_toRegno hreports hreached hused
  rw [hsrc, hend] at hfinal
  have htwo : rel4gJumpSize = 2 := rfl
  have height : literalPoolOffset = 8 := rfl
  have hthree : literalPoolNum = 3 := rfl
  have hstart := hloop.start.src
  have hwords := hloop.start.words
  have hpool := hloop.start.literals
  have hwords' := hemits.words
  have hpool' := hemits.literals
  have hlen : final.dst.length = ctx'.dst.length + 2 := by
    rw [hfinal]
    exact ldrAddr_put_dst_length _ _ _ _
  have hd : ctx'.dst.length < literalPoolOffset := by omega
  have hk : ctx'.literalPool.length < literalPoolNum := by omega
  obtain ⟨imm, hpair, hdesignates⟩ :=
    @pairAt_ldrAddr ctx' r (wordAddr func rel4gJumpSize) hd hk
  have hold : LayoutInv (LiteralOf m func infos final) ctx' := by
    refine ⟨?_, hinv.skips⟩
    intro j word kind rt imm' hat hdecode
    obtain ⟨k, addr, hslot, hdes, hcomputed⟩ := hinv.literals j word kind rt imm' hat hdecode
    have hj := (List.getElem?_eq_some_iff.mp hat).1
    exact ⟨k, addr, hslot, hdes, Or.inl ⟨by omega, hcomputed⟩⟩
  have hnew : LayoutInv (LiteralOf m func infos final) final := by
    have hput := (@LayoutInv.ldrAddr _ _ hold r (wordAddr func rel4gJumpSize) hd hk
      (Or.inr ⟨hlen.symm, rfl⟩)).put (inert_br (decode_brByReg r))
    rw [← MakeTrampolineContext.brByReg, ← hfinal] at hput
    exact hput
  refine ⟨hfits.dst, hfits.literalPool, hnew.literals, hnew.skips, ?_, ?_⟩
  · refine ⟨ctx'.dst.length, ctx'.literalPool.length, r, imm, hlen, ?_, hdesignates, ?_,
      hscratch.1, ?_⟩
    · rw [hfinal]
      exact hpair
    · rw [hfinal]
      exact List.getElem?_concat_length ..
    · intro i hi
      exact hscratch.2 i (by omega)
  · intro tramp mem hload
    exact ⟨fun j word hat => readWord_code hfits hload hat,
      fun k addr hat => readWord_literal hfits hload hat⟩

/-- **The loop**, from any round on. -/
theorem moveInsns_layout {accesses : Word → Reg → Prop} {disasm : Disasm} {m : Mem 64}
    {func : Addr 64} {all infos : List InsnInfo} {ctx final : MakeTrampolineContext}
    (hreports : Reports accesses disasm m func all) (hclass : Classified m func all)
    (hreached : Reaches m func .init all ctx infos)
    (hinv : LayoutInv (ComputedFor m func all) ctx)
    (h : moveInsns m func infos ctx = .ok final) (hend : rel4gJumpSize ≤ final.src)
    (hfits : final.Fits) : Layout accesses m func all final := by
  induction infos generalizing ctx with
  | nil =>
    cases h
    have hlt := (reaches_loopInv hreached (loopInv_init all)).start.src
    omega
  | cons info rest ih =>
    obtain ⟨ctx₁, hbody, h⟩ := exceptBind_ok h
    have hinv₁ := loopBody_layout hclass hreached hbody hinv
    split at h
    · rename_i hge
      exact finishTrampoline_layout hreports hreached hbody hge hinv₁ h hfits
    · rename_i hlt
      exact ih (reaches_step hreached hbody (Nat.lt_of_not_le hlt)) hinv₁ h

theorem layoutInv_init (own : ℕ → Addr 64 → Prop) : LayoutInv own .init := by
  refine ⟨?_, ?_⟩
  · intro j word kind rt imm hat
    cases hat
  · intro j word i off hat
    cases hat

/-- **The layout of a trampoline.** Whatever is moved, code and pool stay within their parts, each
literal load designates the slot with the address of its instruction and each skip the word behind
its pair, wherever the trampoline stands; and the code ends with a jump behind the patch. -/
theorem trampoline_layout {accesses : Word → Reg → Prop} {disasm : Disasm} {m : Mem 64}
    {func : Addr 64} {infos : List InsnInfo} {final : MakeTrampolineContext}
    (hreports : Reports accesses disasm m func infos) (hclass : Classified m func infos)
    (hmake : funchookMakeTrampoline disasm m func = .ok final) :
    Layout accesses m func infos final := by
  obtain ⟨hmove, hend⟩ := funchookMakeTrampoline_ok hreports.decoded hmake
  have hfits := (moveInsns_partOf roundStart_init hmove).2
  exact moveInsns_layout hreports hclass (.here _ _) (layoutInv_init _) hmove hend hfits

/-- `cbz x3, .+64` and `nop`. -/
theorem trampoline_layout_sample :
    Layout sampleAccesses (sampleCode 0xb4000203 0xd503201f) 0x401000
      (sampleWindow 2 (sampleCode 0xb4000203 0xd503201f) 0x401000) cbzFinal :=
  trampoline_layout (sampleDisasm_reports _ _) (sampleWindow_classified 2 _ _) (ok_get _)

end Funchook.Arm64
