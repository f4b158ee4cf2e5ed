import Mathlib.Logic.Relation
import Funchook.Lib.A64

/-!
# The instructions outside the subset

A machine that also runs the words which `decode` does not know. What such a word does is a
parameter, with the general registers it may read and those it always writes: a register that is
not read has no influence on the rest of the state. Two states that agree off a set of registers
then stay so, and the set loses what is written.
-/

namespace A64

open ByteMemory

/-! ## States that agree off a set of registers -/

/-- Two states that differ in the general registers of `D` at most. -/
structure AgreeOff (D : Reg → Prop) (s s' : State) : Prop where
  x : ∀ q, ¬ D q → s'.x q = s.x q
  sp : s'.sp = s.sp
  v : s'.v = s.v
  n : s'.n = s.n
  z : s'.z = s.z
  c : s'.c = s.c
  o : s'.o = s.o
  mem : s'.mem = s.mem
  pc : s'.pc = s.pc
  prefetches : s'.prefetches = s.prefetches

theorem agreeOff_refl (D : Reg → Prop) (s : State) : AgreeOff D s s :=
  ⟨fun _ _ => rfl, rfl, rfl, rfl, rfl, rfl, rfl, rfl, rfl, rfl⟩

theorem AgreeExcept.agreeOff {D : Reg → Prop} {r : Reg} {s s' : State} (h : AgreeExcept r s s')
    (hr : D r) : AgreeOff D s s' := by
  refine ⟨fun q hq => h.x q ?_, h.sp, h.v, h.n, h.z, h.c, h.o, h.mem, h.pc, h.prefetches⟩
  rintro rfl
  exact hq hr

section AgreeOff

variable {D : Reg → Prop} {s s' s'' : State}

theorem AgreeOff.trans (h : AgreeOff D s s') (h' : AgreeOff D s' s'') : AgreeOff D s s'' where
  x q hq := (h'.x q hq).trans (h.x q hq)
  sp := h'.sp.trans h.sp
  v := h'.v.trans h.v
  n := h'.n.trans h.n
  z := h'.z.trans h.z
  c := h'.c.trans h.c
  o := h'.o.trans h.o
  mem := h'.mem.trans h.mem
  pc := h'.pc.trans h.pc
  prefetches := h'.prefetches.trans h.prefetches

theorem AgreeOff.mono {D' : Reg → Prop} (h : AgreeOff D s s') (hsub : ∀ r, D r → D' r) :
    AgreeOff D' s s' :=
  ⟨fun q hq => h.x q fun hD => hq (hsub q hD), h.sp, h.v, h.n, h.z, h.c, h.o, h.mem, h.pc,
    h.prefetches⟩

theorem AgreeOff.withPc (h : AgreeOff D s s') (pc : BitVec 64) :
    AgreeOff D (s.withPc pc) (s'.withPc pc) :=
  ⟨h.x, h.sp, h.v, h.n, h.z, h.c, h.o, h.mem, rfl, h.prefetches⟩

/-- A register that is written agrees from then on. -/
theorem AgreeOff.writeX (h : AgreeOff D s s') (q : Reg) (value : BitVec 64) :
    AgreeOff (fun r => D r ∧ (q = 31 ∨ r ≠ q)) (s.writeX q value) (s'.writeX q value) := by
  unfold State.writeX
  split
  · rename_i hzr
    exact h.mono fun r hr => ⟨hr, Or.inl hzr⟩
  · rename_i hzr
    refine ⟨fun p hp => ?_, h.sp, h.v, h.n, h.z, h.c, h.o, h.mem, h.pc, h.prefetches⟩
    by_cases hpq : p = q
    · simp only [if_pos hpq]
    · simp only [if_neg hpq]
      exact h.x p fun hD => hp ⟨hD, Or.inr hpq⟩

theorem AgreeOff.writeV (h : AgreeOff D s s') (q : Reg) (value : BitVec 128) :
    AgreeOff D (s.writeV q value) (s'.writeV q value) :=
  ⟨h.x, h.sp, by rw [State.writeV, State.writeV, h.v], h.n, h.z, h.c, h.o, h.mem, h.pc,
    h.prefetches⟩

theorem AgreeOff.readX (h : AgreeOff D s s') {r : Reg} (hr : ¬ D r) : s'.readX r = s.readX r := by
  unfold State.readX
  split
  · rfl
  · exact h.x r hr

theorem AgreeOff.readBase (h : AgreeOff D s s') {r : Reg} (hr : ¬ D r) :
    s'.readBase r = s.readBase r := by
  unfold State.readBase
  split
  · exact h.sp
  · exact h.x r hr

end AgreeOff

/-! ## Registers read and written -/

/-- The general registers an instruction reads. -/
def Instr.readRegs : Instr → List Reg
  | .cbz _ _ rt _ => [rt]
  | .tbz _ _ rt _ => [rt]
  | .ldrReg _ _ rn => [rn]
  | .br rn => [rn]
  | .blr rn => [rn]
  | .adr _ _ => []
  | .adrp _ _ => []
  | .b _ => []
  | .bl _ => []
  | .bcond _ _ => []
  | .ldrLit _ _ _ => []

/-- The general registers an instruction writes; 31 is none. -/
def Instr.writtenRegs : Instr → List Reg
  | .adr rd _ => [rd]
  | .adrp rd _ => [rd]
  | .bl _ => [30]
  | .blr _ => [30]
  | .ldrLit kind rt _ => kind.destination rt
  | .ldrReg kind rt _ => kind.destination rt
  | .b _ => []
  | .bcond _ _ => []
  | .cbz _ _ _ _ => []
  | .tbz _ _ _ _ => []
  | .br _ => []

theorem Instr.writtenRegs_subset (i : Instr) {r : Reg} (h : r ∈ i.writtenRegs) :
    r ∈ i.usedRegs := by
  cases i <;> simp_all [Instr.writtenRegs, Instr.usedRegs]

/-- What is left of a set of registers when others are written. -/
def Without (D : Reg → Prop) (written : Reg → Prop) (r : Reg) : Prop := D r ∧ ¬ written r

section Effect

variable {D : Reg → Prop} {s s' : State}

theorem AgreeOff.writeX_without (h : AgreeOff D s s') (q : Reg) (value : BitVec 64)
    (hzr : ¬ D 31) :
    AgreeOff (Without D (· ∈ [q])) (s.writeX q value) (s'.writeX q value) := by
  refine (h.writeX q value).mono fun r hr => ⟨hr.1, fun hmem => ?_⟩
  have hq : r = q := List.mem_singleton.mp hmem
  rcases hr.2 with rfl | hne
  · exact hzr (hq ▸ hr.1)
  · exact hne hq

theorem AgreeOff.without_nil (h : AgreeOff D s s') : AgreeOff (Without D (· ∈ [])) s s' :=
  h.mono fun _ hr => ⟨hr, List.not_mem_nil⟩

theorem AgreeOff.load (h : AgreeOff D s s') (hzr : ¬ D 31) (kind : LoadKind) (rt : Reg)
    (addr : BitVec 64) :
    AgreeOff (Without D (· ∈ kind.destination rt)) (load kind rt addr s)
      (load kind rt addr s') := by
  cases kind with
  | w | x | sw =>
    simp only [A64.load, h.mem]
    exact h.writeX_without _ _ hzr
  | s | d | q =>
    simp only [A64.load, h.mem]
    exact (h.writeV ..).without_nil
  | prfm =>
    exact AgreeOff.without_nil ⟨h.x, h.sp, h.v, h.n, h.z, h.c, h.o, h.mem, h.pc,
      congrArg ((rt, addr) :: ·) h.prefetches⟩

theorem AgreeOff.conditionHolds (h : AgreeOff D s s') (cond : BitVec 4) :
    conditionHolds s' cond = conditionHolds s cond := by
  unfold A64.conditionHolds
  rw [h.z, h.c, h.n, h.o]

theorem AgreeOff.taken (h : AgreeOff D s s') {i : Instr} (hreads : ∀ r ∈ i.readRegs, ¬ D r) :
    i.taken s' = i.taken s := by
  cases i with
  | bcond cond imm => exact h.conditionHolds cond
  | cbz sf nonzero rt imm =>
    simp only [Instr.taken, h.readX (hreads rt List.mem_cons_self)]
  | tbz nonzero pos rt imm =>
    simp only [Instr.taken, h.readX (hreads rt List.mem_cons_self)]
  | _ => rfl

/-- **An instruction that reads no register of `D`** has the same effect off `D`, and what it
writes agrees. -/
theorem AgreeOff.effect (h : AgreeOff D s s') (hzr : ¬ D 31) {i : Instr}
    (hreads : ∀ r ∈ i.readRegs, ¬ D r) (pc next : BitVec 64) :
    AgreeOff (Without D (· ∈ i.writtenRegs)) (i.effect pc next s) (i.effect pc next s') := by
  cases i with
  | adr rd imm => exact (h.writeX_without rd _ hzr).withPc next
  | adrp rd imm => exact (h.writeX_without rd _ hzr).withPc next
  | b imm => exact (h.withPc _).without_nil
  | bl imm => exact (h.writeX_without 30 next hzr).withPc _
  | bcond cond imm =>
    simp only [Instr.effect, h.taken hreads]
    exact (h.withPc _).without_nil
  | cbz sf nonzero rt imm =>
    simp only [Instr.effect, h.taken hreads]
    exact (h.withPc _).without_nil
  | tbz nonzero pos rt imm =>
    simp only [Instr.effect, h.taken hreads]
    exact (h.withPc _).without_nil
  | ldrLit kind rt imm => exact (h.load hzr kind rt _).withPc next
  | ldrReg kind rt rn =>
    simp only [Instr.effect, h.readBase (hreads rn List.mem_cons_self)]
    exact (h.load hzr kind rt _).withPc next
  | br rn =>
    simp only [Instr.effect, h.readX (hreads rn List.mem_cons_self)]
    exact (h.withPc _).without_nil
  | blr rn =>
    simp only [Instr.effect, h.readX (hreads rn List.mem_cons_self)]
    exact (h.writeX_without 30 next hzr).withPc _

end Effect

/-! ## The machine -/

/-- The words outside the subset. `run` gets the state with the program counter already at what
follows, and is `none` where the machine stops. -/
structure Others where
  run : Word → State → Option State
  reads : Word → Reg → Prop
  writes : Word → Reg → Prop
  agree : ∀ {D : Reg → Prop} {word : Word} {s s' t : State}, AgreeOff D s s' →
    (∀ r, D r → ¬ reads word r) → run word s = some t →
      ∃ t', run word s' = some t' ∧ AgreeOff (Without D (writes word)) t t'

namespace Others

variable (O : Others)

/-- The general registers a word may read. -/
def Reads (word : Word) (r : Reg) : Prop :=
  match decode word with
  | some i => r ∈ i.readRegs
  | none => O.reads word r

/-- The general registers a word always writes. -/
def Writes (word : Word) (r : Reg) : Prop :=
  match decode word with
  | some i => r ∈ i.writtenRegs
  | none => O.writes word r

/-- What a word at `pc` does, when `next` is the address of the one that follows it. -/
def exec (word : Word) (pc next : BitVec 64) (s : State) : Option State :=
  match decode word with
  | some i => some (i.effect pc next s)
  | none => O.run word (s.withPc next)

/-- One step. -/
def Step (s s' : State) : Prop := O.exec s.fetch s.pc (s.pc + 4) s = some s'

variable {O}

theorem exec_of_decode {word : Word} {i : Instr} (h : decode word = some i) (pc next : BitVec 64)
    (s : State) : O.exec word pc next s = some (i.effect pc next s) := by
  simp only [exec, h]

theorem exec_withPc (word : Word) (pc next p : BitVec 64) (s : State) :
    O.exec word pc next (s.withPc p) = O.exec word pc next s := by
  unfold exec
  cases decode word with
  | some i => simp only [effect_withPc]
  | none => rfl

/-- Only the instructions of the subset depend on the address they stand at. -/
theorem exec_of_decode_none {word : Word} (h : decode word = none) (pc pc' next : BitVec 64)
    (s : State) : O.exec word pc next s = O.exec word pc' next s := by
  simp only [exec, h]

/-- **A word that reads no register of `D`**, run on two states that agree off `D`. -/
theorem exec_agree {D : Reg → Prop} {word : Word} {pc next : BitVec 64} {s s' t : State}
    (h : AgreeOff D s s') (hzr : ¬ D 31) (hreads : ∀ r, D r → ¬ O.Reads word r)
    (hexec : O.exec word pc next s = some t) :
    ∃ t', O.exec word pc next s' = some t' ∧ AgreeOff (Without D (O.Writes word)) t t' := by
  unfold exec Reads Writes at *
  cases hdecode : decode word with
  | some i =>
    simp only [hdecode] at hexec hreads ⊢
    obtain rfl := Option.some.inj hexec
    exact ⟨_, rfl, h.effect hzr (fun r hr hD => hreads r hD hr) pc next⟩
  | none =>
    simp only [hdecode] at hexec hreads ⊢
    exact O.agree (h.withPc next) hreads hexec

theorem step_of_step {s s' : State} (h : A64.step s = some s') : O.Step s s' := by
  unfold A64.step at h
  unfold Step exec
  cases hdecode : decode s.fetch with
  | some i =>
    rw [hdecode] at h
    exact h
  | none =>
    rw [hdecode] at h
    cases h

/-- A number of steps within the subset. -/
theorem steps_of_run {n : ℕ} {s s' : State} (h : A64.run n s = some s') :
    Relation.ReflTransGen O.Step s s' := by
  induction n generalizing s with
  | zero => exact Option.some.inj h ▸ .refl
  | succ n ih =>
    obtain ⟨s₁, hstep, hrun⟩ := Option.bind_eq_some_iff.mp h
    exact .head (step_of_step hstep) (ih hrun)

/-- Runs within the subset are runs of the machine. -/
theorem steps_of_executes {lo : BitVec 64} {n : ℕ} {s s' : State} (h : Executes lo n s s') :
    Relation.ReflTransGen O.Step s s' := by
  induction h with
  | last _ hstep => exact .single (step_of_step hstep)
  | more _ hstep _ ih => exact .head (step_of_step hstep) ih

end Others

end A64
