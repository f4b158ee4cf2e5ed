import Funchook.LayoutArm64
import Funchook.Lib.A64Others

/-!
# Running an AArch64 trampoline

The moved instructions, one after the other at their own addresses, against the trampoline from
its first word on. An expansion leaves its operand in a scratch register, and so does the jump at
the end: one of `x9` to `x15` that the moved instructions so far have not used. The rest of the
state is that of the original wherever control leaves, and a call returns to the expansion of the
instruction behind it.
-/

namespace Funchook.Arm64

open ByteMemory
open A64 (Reg Instr State field decode Executes AgreeExcept AgreeOff Others)
open Relation (ReflTransGen)

/-! ## The moved instructions -/

/-- The registers of `x9` to `x15` that no moved instruction before `k` has written. By the
procedure call standard a function finds nothing in them. -/
def Unwritten (O : Others) (m : Mem 64) (func : Addr 64) (k : ℕ) (r : Reg) : Prop :=
  Corruptible r ∧ ∀ j < k, ¬ O.Writes (insnAt m func j) r

/-- No moved instruction reads what the function finds in `x9` to `x15`. -/
def ReadsOnlyWritten (O : Others) (m : Mem 64) (func : Addr 64) : Prop :=
  ∀ k < movedCount m func, ∀ r, Unwritten O m func k r → ¬ O.Reads (insnAt m func k) r

/-- No moved instruction is a `B.cond` with the condition 15. -/
def NoneNever (m : Mem 64) (func : Addr 64) : Prop :=
  ∀ k < movedCount m func, ∀ imm, decode (insnAt m func k) ≠ some (.bcond 15 imm)

/-- The moved instructions from the one at `k` on, each run as at its own address, where `pos`
gives the addresses of what follows. Control leaves from one of them, or goes on behind the patch;
the memory stays `intact` in between. -/
inductive MovedRun (O : Others) (m : Mem 64) (func : Addr 64) (intact : Mem 64 → Prop)
    (pos : ℕ → Addr 64) : ℕ → State → ℕ → State → Prop
  | leaves {k : ℕ} {s t : State} : k < movedCount m func →
      O.exec (insnAt m func k) (wordAddr func k) (pos (k + 1)) s = some t →
        MovedRun O m func intact pos k s (k + 1) t
  | next {k j : ℕ} {s t u : State} : k < movedCount m func →
      O.exec (insnAt m func k) (wordAddr func k) (pos (k + 1)) s = some t →
        t.pc = pos (k + 1) → intact t.mem → MovedRun O m func intact pos (k + 1) t j u →
          MovedRun O m func intact pos k s j u
  | behind (s : State) : MovedRun O m func intact pos (movedCount m func) s (movedCount m func)
      (s.withPc (wordAddr func rel4gJumpSize))

theorem Unwritten.ne_zr {O : Others} {m : Mem 64} {func : Addr 64} {k : ℕ} :
    ¬ Unwritten O m func k 31 := fun h => h.1.ne_zr rfl

theorem without_unwritten {O : Others} {m : Mem 64} {func : Addr 64} {k : ℕ} {r : Reg}
    (h : A64.Without (Unwritten O m func k) (O.Writes (insnAt m func k)) r) :
    Unwritten O m func (k + 1) r := by
  refine ⟨h.1.1, fun j hj => ?_⟩
  rcases Nat.lt_or_eq_of_le (Nat.le_of_lt_succ hj) with hlt | rfl
  · exact h.1.2 j hlt
  · exact h.2

/-! ## One expansion -/

section Round

variable {O : Others} {accesses : Word → Reg → Prop} {disasm : Disasm} {m : Mem 64}
  {func : Addr 64} {infos rest : List InsnInfo} {info : InsnInfo}
  {ctx ctx' final : MakeTrampolineContext}

/-- A register that no moved instruction so far accesses has not been written. -/
theorem Scratch.unwritten (haccess : ∀ word r, O.Writes word r → accesses word r) {k : ℕ}
    {r : Reg} (h : Scratch accesses m func k r) : Unwritten O m func (k + 1) r :=
  ⟨h.1, fun j hj hwrites => h.2 j (Nat.le_of_lt_succ hj) (haccess _ r hwrites)⟩

/-- `ADR` and `ADRP` become `LDR_ADDR` of what they compute. -/
theorem runsAs_address (hreports : Reports accesses disasm m func infos)
    (hmake : funchookMakeTrampoline disasm m func = .ok final)
    (hreached : Reaches m func .init infos ctx (info :: rest))
    (hbody : loopBody m func ctx info = .ok ctx') {i : Instr}
    (hdecode : decode (insnAt m func ctx.src) = some i)
    (hi : (∃ rd imm, i = .adr rd imm) ∨ ∃ rd imm, i = .adrp rd imm) :
    RunsAs func ctx ctx' final i (· = ·) := by
  obtain ⟨moved, hmove, hdst, hpart, hfits, hid⟩ := round_ok hreports hmake hreached hbody hdecode
  rw [runsAs_congr hdst]
  rcases hi with ⟨rd, imm, rfl⟩ | ⟨rd, imm, rfl⟩
  · obtain rfl := moveInsn_adr hdecode hid hmove
    exact @runsAs_ldrAddr func (used ctx info) _ hfits _ _ _ hpart fun _ _ => rfl
  · obtain rfl := moveInsn_adrp hdecode hid hmove
    exact @runsAs_ldrAddr func (used ctx info) _ hfits _ _ _ hpart fun _ _ => rfl

/-- A word that the loop copies is fetched where the copy stands. -/
theorem fetch_copied (hreports : Reports accesses disasm m func infos)
    (hmake : funchookMakeTrampoline disasm m func = .ok final)
    (hreached : Reaches m func .init infos ctx (info :: rest))
    (hbody : loopBody m func ctx info = .ok ctx')
    (hcopied : info.insnId = .other ∨
      IsLoad info.insnId ∧ (insnAt m func ctx.src).getLsbD 29 = true) :
    ctx'.dst.length = ctx.dst.length + 1 ∧
      ∀ (tramp : Addr 64) (s : State), final.LoadedAt tramp s.mem →
        s.pc = wordAddr tramp ctx.dst.length → s.fetch = insnAt m func ctx.src := by
  obtain ⟨hpart, hfits⟩ := loopBody_partOf hreached hbody
    (funchookMakeTrampoline_ok hreports.decoded hmake).1
  obtain ⟨moved, hmove, rfl⟩ := loopBody_ok hbody
  obtain rfl := moveInsn_copied hcopied hmove
  refine ⟨put_dst_length _ _, fun tramp s hload hpc => ?_⟩
  rw [State.fetch, hpc]
  exact readWord_code hfits hload (getElem?_prefix_eq hpart.dst (List.getElem?_concat_length ..))

/-- What an instruction of the subset becomes, other than a copy. -/
theorem runsAs_expanded (hreports : Reports accesses disasm m func infos)
    (hmake : funchookMakeTrampoline disasm m func = .ok final)
    (hreached : Reaches m func .init infos ctx (info :: rest))
    (hbody : loopBody m func ctx info = .ok ctx') {i : Instr}
    (hdecode : decode (insnAt m func ctx.src) = some i) (hne : ∀ imm, i ≠ .bcond 15 imm) :
    (∃ r, Scratch accesses m func ctx.src r ∧ RunsAs func ctx ctx' final i (AgreeExcept r)) ∨
      RunsAs func ctx ctx' final i (· = ·) ∨
        ((∀ pc pc' next s, i.effect pc next s = i.effect pc' next s) ∧
          (info.insnId = .other ∨
            IsLoad info.insnId ∧ (insnAt m func ctx.src).getLsbD 29 = true)) := by
  have hid := (round_ok hreports hmake hreached hbody hdecode).choose_spec.2.2.2.2
  cases i with
  | adr rd imm =>
    exact Or.inr (Or.inl (runsAs_address hreports hmake hreached hbody hdecode
      (Or.inl ⟨rd, imm, rfl⟩)))
  | adrp rd imm =>
    exact Or.inr (Or.inl (runsAs_address hreports hmake hreached hbody hdecode
      (Or.inr ⟨rd, imm, rfl⟩)))
  | b imm =>
    exact Or.inl (runsAs_scratch hreports hmake hreached hbody hdecode (Or.inl ⟨imm, rfl⟩))
  | bl imm =>
    exact Or.inl (runsAs_scratch hreports hmake hreached hbody hdecode
      (Or.inr (Or.inl ⟨imm, rfl⟩)))
  | ldrLit kind rt imm =>
    exact Or.inl (runsAs_scratch hreports hmake hreached hbody hdecode
      (Or.inr (Or.inr ⟨kind, rt, imm, rfl⟩)))
  | bcond cond imm =>
    exact Or.inl (runsAs_conditional hreports hmake hreached hbody hdecode rfl hne)
  | cbz sf nonzero rt imm =>
    exact Or.inl (runsAs_conditional hreports hmake hreached hbody hdecode rfl hne)
  | tbz nonzero pos rt imm =>
    exact Or.inl (runsAs_conditional hreports hmake hreached hbody hdecode rfl hne)
  | ldrReg kind rt rn =>
    have hset := A64.decode_ldrReg hdecode
    have hload : IsLoad info.insnId := by
      rw [hid]
      cases kind <;> simp [IsLoad, insnIdOf]
    exact Or.inr (Or.inr ⟨fun _ _ _ _ => rfl,
      Or.inr ⟨hload, by simpa [BitVec.eq_of_getLsbD_eq_iff] using hset⟩⟩)
  | br rn => exact Or.inr (Or.inr ⟨fun _ _ _ _ => rfl, Or.inl hid⟩)
  | blr rn => exact Or.inr (Or.inr ⟨fun _ _ _ _ => rfl, Or.inl hid⟩)

/-- **One instruction.** From the first word of its expansion the machine comes to what the
instruction does at its own address, up to a register that has not been written so far. -/
theorem expansion_simulates (hreports : Reports accesses disasm m func infos)
    (hclass : Classified m func infos)
    (hmake : funchookMakeTrampoline disasm m func = .ok final)
    (haccess : ∀ word r, O.Writes word r → accesses word r)
    (hreached : Reaches m func .init infos ctx (info :: rest))
    (hbody : loopBody m func ctx info = .ok ctx')
    (hnever : ∀ imm, decode (insnAt m func ctx.src) ≠ some (.bcond 15 imm)) {tramp : Addr 64}
    {s t : State} (hload : final.LoadedAt tramp s.mem)
    (hpc : s.pc = wordAddr tramp ctx.dst.length)
    (hexec : O.exec (insnAt m func ctx.src) (wordAddr func ctx.src)
      (wordAddr tramp ctx'.dst.length) s = some t) :
    ∃ t', ReflTransGen O.Step s t' ∧ AgreeOff (Unwritten O m func (ctx.src + 1)) t t' := by
  have hat := (reaches_loopInv hreached (loopInv_init infos)).at_src
  -- a copied word is one step
  have hcopy : (∀ pc pc' next s, O.exec (insnAt m func ctx.src) pc next s =
      O.exec (insnAt m func ctx.src) pc' next s) →
      (info.insnId = .other ∨
        IsLoad info.insnId ∧ (insnAt m func ctx.src).getLsbD 29 = true) →
      ∃ t', ReflTransGen O.Step s t' ∧ AgreeOff (Unwritten O m func (ctx.src + 1)) t t' := by
    intro hpcfree hcopied
    obtain ⟨hlen, hfetch⟩ := fetch_copied hreports hmake hreached hbody hcopied
    refine ⟨t, .single ?_, A64.agreeOff_refl _ t⟩
    rw [Others.Step, hfetch tramp s hload hpc, hpcfree _ (wordAddr func ctx.src), hpc,
      wordAddr_succ, ← hlen]
    exact hexec
  cases hdecode : decode (insnAt m func ctx.src) with
  | none =>
    exact hcopy (fun pc pc' next s => Others.exec_of_decode_none hdecode pc pc' next s)
      (hclass.others _ info hat hdecode)
  | some i =>
    have hne : ∀ imm, i ≠ .bcond 15 imm := by
      rintro imm rfl
      exact hnever imm hdecode
    rw [Others.exec_of_decode hdecode] at hexec
    obtain rfl := Option.some.inj hexec
    rcases runsAs_expanded hreports hmake hreached hbody hdecode hne with
      ⟨r, hscratch, hruns⟩ | hruns | ⟨heffect, hcopied⟩
    · obtain ⟨t', hexecutes, hagree⟩ := hruns tramp s hload hpc
      exact ⟨t', Others.steps_of_executes hexecutes, hagree.agreeOff (hscratch.unwritten haccess)⟩
    · obtain ⟨t', hexecutes, rfl⟩ := hruns tramp s hload hpc
      exact ⟨_, Others.steps_of_executes hexecutes, A64.agreeOff_refl _ _⟩
    · refine hcopy (fun pc pc' next s => ?_) hcopied
      rw [Others.exec_of_decode hdecode, Others.exec_of_decode hdecode, heffect pc pc']

end Round

/-! ## Where the expansions start -/

/-- `d k` is where the expansion of the instruction at `k` starts, and the jump behind the patch
where the last one ends. -/
structure Placed (accesses : Word → Reg → Prop) (m : Mem 64) (func : Addr 64)
    (infos : List InsnInfo) (final : MakeTrampolineContext) (lo : ℕ) (d : ℕ → ℕ) : Prop where
  round : ∀ k, lo ≤ k → k < movedCount m func → ∃ ctx ctx' info rest,
    Reaches m func .init infos ctx (info :: rest) ∧ loopBody m func ctx info = .ok ctx' ∧
      ctx.src = k ∧ ctx.dst.length = d k ∧ ctx'.dst.length = d (k + 1)
  jump : ∃ (ctx : MakeTrampolineContext) (r : Reg),
    final = (ctx.ldrAddr (field 0 r) (wordAddr func rel4gJumpSize)).brByReg (field 0 r) ∧
      ctx.dst.length = d (movedCount m func) ∧ Corruptible r ∧
        ∀ j < movedCount m func, ¬ accesses (insnAt m func j) r

theorem movedCount_of_nextSrc {m : Mem 64} {func : Addr 64} {src : ℕ}
    (h : nextSrc m func src < rel4gJumpSize) : movedCount m func = rel4gJumpSize := by
  unfold nextSrc at h
  split at h
  · exact absurd h (Nat.lt_irrefl 2)
  · rename_i hudf
    exact if_neg hudf

/-- **The loop**, from any round on. -/
theorem moveInsns_placed {accesses : Word → Reg → Prop} {disasm : Disasm} {m : Mem 64}
    {func : Addr 64} {all infos : List InsnInfo} {ctx final : MakeTrampolineContext}
    (hreports : Reports accesses disasm m func all)
    (hreached : Reaches m func .init all ctx infos) (hlt : ctx.src < movedCount m func)
    (h : moveInsns m func infos ctx = .ok final) (hend : rel4gJumpSize ≤ final.src) :
    ∃ d, d ctx.src = ctx.dst.length ∧ Placed accesses m func all final ctx.src d := by
  induction infos generalizing ctx with
  | nil =>
    cases h
    have hsrc := (reaches_loopInv hreached (loopInv_init all)).start.src
    omega
  | cons info rest ih =>
    obtain ⟨ctx₁, hbody, h⟩ := exceptBind_ok h
    have hloop := reaches_loopInv hreached (loopInv_init all)
    obtain ⟨hemits, hsrc⟩ := loopBody_emits hbody
    split at h
    · rename_i hge
      obtain ⟨hstop, hcount⟩ := nextSrc_of_ge hloop.start.src (hsrc ▸ hge)
      obtain ⟨regno, hregno, hfinal⟩ := finishTrampoline_ok h
      rw [hemits.availRegs] at hregno
      obtain ⟨r, rfl, hscratch⟩ := scratch_of_toRegno hreports hreached hregno
      have hlast : movedCount m func = ctx.src + 1 := Nat.le_antisymm hcount hlt
      rw [hsrc, hstop] at hfinal
      refine ⟨fun k => if k ≤ ctx.src then ctx.dst.length else ctx₁.dst.length,
        if_pos (Nat.le_refl _), ?_, ctx₁, r, hfinal, ?_, hscratch.1, ?_⟩
      · intro k hlo hk
        obtain rfl : k = ctx.src := by omega
        exact ⟨ctx, ctx₁, info, rest, hreached, hbody, rfl, (if_pos (Nat.le_refl _)).symm,
          (if_neg (Nat.not_succ_le_self _)).symm⟩
      · rw [if_neg (by omega)]
      · intro j hj
        exact hscratch.2 j (by omega)
    · rename_i hlt'
      have hmore : ctx₁.src < rel4gJumpSize := Nat.lt_of_not_le hlt'
      have hnext := (loopBody_roundStart hloop.start hbody hmore).2
      have hcount := movedCount_of_nextSrc (hsrc ▸ hmore)
      obtain ⟨d, hd, hplaced⟩ := ih (reaches_step hreached hbody hmore) (hcount ▸ hmore) h
      have hself : Function.update d ctx.src ctx.dst.length ctx.src = ctx.dst.length :=
        Function.update_self ..
      have hother : ∀ k, ctx₁.src ≤ k → Function.update d ctx.src ctx.dst.length k = d k :=
        fun k hk => Function.update_of_ne (by omega) _ _
      refine ⟨Function.update d ctx.src ctx.dst.length, hself, ?_, ?_⟩
      · intro k hlo hk
        rcases Nat.lt_or_eq_of_le hlo with hbehind | rfl
        · rw [hother k (by omega), hother (k + 1) (by omega)]
          exact hplaced.round k (by omega) hk
        · refine ⟨ctx, ctx₁, info, rest, hreached, hbody, rfl, hself.symm, ?_⟩
          rw [hother _ (by omega), ← hnext, hd]
      · obtain ⟨last, r, hfinal, hlen, hr, hfree⟩ := hplaced.jump
        exact ⟨last, r, hfinal, by rw [hother _ (by omega), hlen], hr, hfree⟩

theorem exists_placed {accesses : Word → Reg → Prop} {disasm : Disasm} {m : Mem 64}
    {func : Addr 64} {infos : List InsnInfo} {final : MakeTrampolineContext}
    (hreports : Reports accesses disasm m func infos)
    (hmake : funchookMakeTrampoline disasm m func = .ok final) :
    ∃ d, d 0 = 0 ∧ Placed accesses m func infos final 0 d := by
  obtain ⟨hmove, hend⟩ := funchookMakeTrampoline_ok hreports.decoded hmake
  have hfirst : 0 < movedCount m func := by
    unfold movedCount
    split <;> decide
  exact moveInsns_placed hreports (.here _ _) hfirst hmove hend

/-- **The run**, from any instruction on and in any state that agrees. -/
theorem placed_simulates {O : Others} {accesses : Word → Reg → Prop} {disasm : Disasm}
    {m : Mem 64} {func : Addr 64} {infos : List InsnInfo} {final : MakeTrampolineContext}
    {d : ℕ → ℕ} (hreports : Reports accesses disasm m func infos)
    (hclass : Classified m func infos) (hmake : funchookMakeTrampoline disasm m func = .ok final)
    (haccess : ∀ word r, O.Writes word r → accesses word r) (hreads : ReadsOnlyWritten O m func)
    (hnever : NoneNever m func) (hplaced : Placed accesses m func infos final 0 d)
    {tramp : Addr 64} {k j : ℕ} {s t : State}
    (hrun : MovedRun O m func (final.LoadedAt tramp) (fun i => wordAddr tramp (d i)) k s j t)
    (hload : final.LoadedAt tramp s.mem) {s' : State}
    (hagree : AgreeOff (Unwritten O m func k) (s.withPc (wordAddr tramp (d k))) s') :
    ∃ t', ReflTransGen O.Step s' t' ∧ AgreeOff (Unwritten O m func j) t t' := by
  -- one instruction, from any state that agrees
  have hstep : ∀ {k : ℕ} {s t : State}, k < movedCount m func →
      O.exec (insnAt m func k) (wordAddr func k) (wordAddr tramp (d (k + 1))) s = some t →
        final.LoadedAt tramp s.mem →
          ∀ s', AgreeOff (Unwritten O m func k) (s.withPc (wordAddr tramp (d k))) s' →
            ∃ t', ReflTransGen O.Step s' t' ∧ AgreeOff (Unwritten O m func (k + 1)) t t' := by
    intro k s t hk hexec hload s' hagree
    obtain ⟨ctx, ctx', info, rest, hreached, hbody, rfl, hstart, hstop⟩ :=
      hplaced.round k (Nat.zero_le k) hk
    rw [← Others.exec_withPc _ _ _ (wordAddr tramp (d ctx.src))] at hexec
    obtain ⟨u, hexec', hoff⟩ := Others.exec_agree hagree Unwritten.ne_zr (hreads _ hk) hexec
    rw [← hstop] at hexec'
    obtain ⟨t', hsteps, hoff'⟩ := expansion_simulates hreports hclass hmake haccess hreached hbody
      (hnever _ hk) (by rw [hagree.mem]; exact hload) (by rw [hagree.pc, hstart]; rfl) hexec'
    exact ⟨t', hsteps, (hoff.mono fun _ => without_unwritten).trans hoff'⟩
  induction hrun generalizing s' with
  | leaves hk hexec => exact hstep hk hexec hload s' hagree
  | next hk hexec hpc hintact _ ih =>
    obtain ⟨t', hsteps, hoff⟩ := hstep hk hexec hload s' hagree
    obtain ⟨u', hrest, hoff'⟩ := ih hintact (by rw [← hpc]; exact hoff)
    exact ⟨u', hsteps.trans hrest, hoff'⟩
  | behind s =>
    obtain ⟨hmove, -⟩ := funchookMakeTrampoline_ok hreports.decoded hmake
    have hfits := (moveInsns_partOf roundStart_init hmove).2
    obtain ⟨last, r, hfinal, hlast, hr, hfree⟩ := hplaced.jump
    have hlen : final.dst.length = last.dst.length + 2 := by
      rw [hfinal]
      exact ldrAddr_put_dst_length _ _ _ _
    -- the jump at the end
    have hin : ∀ k < 2, InRange (wordAddr tramp last.dst.length) (4 * 2)
        (wordAddr tramp (last.dst.length + k)) :=
      fun k hk => inRange_word tramp (by omega) (by omega) (by decide)
    have hjump := executes_ldrAddr_put hfits (s := s') (by rw [hagree.mem]; exact hload)
      (by rw [hfinal]; exact partOf_refl _) (decode_brByReg r) (by rw [hagree.pc, hlast]; rfl)
      (hin 0 (by decide)) (hin 1 (by decide))
    refine ⟨_, Others.steps_of_executes hjump, ?_⟩
    simp only [Instr.effect]
    rw [State.readX_writeX_self _ _ hr.ne_zr]
    have hunwritten : Unwritten O m func (movedCount m func) r :=
      ⟨hr, fun j hj hwrites => hfree j hj (haccess _ r hwrites)⟩
    exact (hagree.trans ((A64.agreeExcept_writeX r s' _).agreeOff hunwritten)).withPc _

/-- **Running the trampoline.** The trampoline does what the moved instructions do in turn at their
own addresses, wherever control leaves, and goes on behind the patch; only those registers of `x9`
to `x15` that none of them has written may differ. -/
theorem trampoline_simulates {O : Others} {accesses : Word → Reg → Prop} {disasm : Disasm}
    {m : Mem 64} {func : Addr 64} {infos : List InsnInfo} {final : MakeTrampolineContext}
    (hreports : Reports accesses disasm m func infos) (hclass : Classified m func infos)
    (hmake : funchookMakeTrampoline disasm m func = .ok final)
    (haccess : ∀ word r, O.Writes word r → accesses word r)
    (hreads : ReadsOnlyWritten O m func) (hnever : NoneNever m func) :
    ∃ d : ℕ → ℕ, d 0 = 0 ∧ d (movedCount m func) + 2 = final.dst.length ∧
      ∀ tramp k s j t, MovedRun O m func (final.LoadedAt tramp) (fun i => wordAddr tramp (d i)) k s
        j t → final.LoadedAt tramp s.mem →
          ∀ s', AgreeOff (Unwritten O m func k) (s.withPc (wordAddr tramp (d k))) s' →
            ∃ t', ReflTransGen O.Step s' t' ∧ AgreeOff (Unwritten O m func j) t t' := by
  obtain ⟨d, hzero, hplaced⟩ := exists_placed hreports hmake
  obtain ⟨last, r, hfinal, hlast, -, -⟩ := hplaced.jump
  refine ⟨d, hzero, ?_, fun tramp k s j t hrun hload s' hagree =>
    placed_simulates hreports hclass hmake haccess hreads hnever hplaced hrun hload hagree⟩
  rw [hfinal, ← hlast]
  exact (ldrAddr_put_dst_length _ _ _ _).symm

/-! ## A sample run -/

/-- A machine whose only other instruction is `nop`. -/
def nopOnly : Others where
  run word s := if word = 0xd503201f then some s else none
  reads _ _ := False
  writes _ _ := False
  agree := by
    intro D word s s' t hagree _ hrun
    split at hrun
    · rename_i hnop
      obtain rfl := Option.some.inj hrun
      exact ⟨s', if_pos hnop, hagree.mono fun r hr => ⟨hr, id⟩⟩
    · cases hrun

theorem nopOnly_writes {word : Word} {r : Reg} (h : nopOnly.Writes word r) :
    sampleAccesses word r := by
  unfold Others.Writes at h
  cases hdecode : decode word with
  | some i =>
    rw [hdecode] at h
    exact ⟨i, hdecode, i.writtenRegs_subset h⟩
  | none =>
    rw [hdecode] at h
    exact h.elim

/-- `cbz x3, .+64` and `nop`. -/
def cbzCode : Mem 64 := sampleCode 0xb4000203 0xd503201f

theorem cbzCode_decode {k : ℕ} (hk : k < movedCount cbzCode 0x401000) :
    k = 0 ∧ decode (insnAt cbzCode 0x401000 k) = some (.cbz true false 3 16) ∨
      k = 1 ∧ decode (insnAt cbzCode 0x401000 k) = none := by
  have hcount : movedCount cbzCode 0x401000 = 2 := by decide +kernel
  rw [hcount] at hk
  obtain rfl | rfl : k = 0 ∨ k = 1 := by omega
  · exact Or.inl ⟨rfl, by decide +kernel⟩
  · exact Or.inr ⟨rfl, by decide +kernel⟩

theorem cbzCode_readsOnlyWritten : ReadsOnlyWritten nopOnly cbzCode 0x401000 := by
  intro k hk r hunwritten hreads
  unfold Others.Reads at hreads
  rcases cbzCode_decode hk with ⟨-, hdecode⟩ | ⟨-, hdecode⟩
  · rw [hdecode] at hreads
    obtain rfl := List.mem_singleton.mp hreads
    exact absurd hunwritten.1 (by decide)
  · rw [hdecode] at hreads
    exact hreads

theorem cbzCode_noneNever : NoneNever cbzCode 0x401000 := by
  intro k hk imm hnever
  rcases cbzCode_decode hk with ⟨-, hdecode⟩ | ⟨-, hdecode⟩
  · rw [hdecode] at hnever
    cases hnever
  · rw [hdecode] at hnever
    cases hnever

theorem trampoline_simulates_sample :
    ∃ d : ℕ → ℕ, d 0 = 0 ∧
      d (movedCount (sampleCode 0xb4000203 0xd503201f) 0x401000) + 2 = cbzFinal.dst.length ∧
        ∀ tramp k s j t, MovedRun nopOnly (sampleCode 0xb4000203 0xd503201f) 0x401000
          (cbzFinal.LoadedAt tramp) (fun i => wordAddr tramp (d i)) k s j t →
            cbzFinal.LoadedAt tramp s.mem →
              ∀ s', AgreeOff (Unwritten nopOnly (sampleCode 0xb4000203 0xd503201f) 0x401000 k)
                (s.withPc (wordAddr tramp (d k))) s' →
                  ∃ t', ReflTransGen nopOnly.Step s' t' ∧
                    AgreeOff (Unwritten nopOnly (sampleCode 0xb4000203 0xd503201f) 0x401000 j)
                      t t' :=
  trampoline_simulates (sampleDisasm_reports _ _) (sampleWindow_classified 2 _ _) (ok_get _)
    (fun _ _ => nopOnly_writes) cbzCode_readsOnlyWritten cbzCode_noneNever

end Funchook.Arm64
