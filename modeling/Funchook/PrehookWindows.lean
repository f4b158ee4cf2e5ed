import Funchook.PrehookArm64

/-!
# The bridge of 64-bit Windows (`prehook-x86_64-ms.S`, `prehook-x86_64-ms.asm`, `arch_x86.c`)

A caller leaves 32 bytes of home space between the return address and the stack arguments, which
belong to the function it calls. The bridge leaves such space for `funchook_hook_caller` below the
registers that it saves, and `funchook_arg_get_stack_addr` skips the one of the target. The hook is
in `rax`, which is loaded by no one.
-/

namespace Funchook

open ByteMemory Frame

namespace Win64

open X64

def intRegOffset : BitVec 64 := 0x80 / 8

def fltRegOffset : BitVec 64 := 0x60 / 8

def stackOffset : BitVec 64 := 6

def funchookArgGetIntRegAddr (argHandle : FunchookArgHandle 64) (pos : BitVec 32) : Addr 64 :=
  element (element argHandle.basePointer (-intRegOffset)) (pos.signExtend 64)

def funchookArgGetFltRegAddr (argHandle : FunchookArgHandle 64) (pos : BitVec 32) : Addr 64 :=
  element (element argHandle.basePointer (-fltRegOffset)) (2 * pos.signExtend 64)

def funchookArgGetStackAddr (argHandle : FunchookArgHandle 64) (pos : BitVec 32) : Addr 64 :=
  element (element argHandle.basePointer stackOffset) (pos.signExtend 64)

/-- `funchook_hook_caller_asm` up to the call. -/
def saveCode : List Instr := [
  .push 5,
  .mov 4 5,
  .sub 0xa0 4,
  -- integer or pointer arguments
  .store (.reg 1) (-0x80) 5,
  .store (.reg 2) (-0x78) 5,
  .store (.reg 8) (-0x70) 5,
  .store (.reg 9) (-0x68) 5,
  .store (.xmm 0) (-0x60) 5,
  .store (.xmm 1) (-0x50) 5,
  .store (.xmm 2) (-0x40) 5,
  .store (.xmm 3) (-0x30) 5,
  -- arguments of `__vectorcall`
  .store (.xmm 4) (-0x20) 5,
  .store (.xmm 5) (-0x10) 5,
  .and 0xfffffffffffffff0 4,
  .mov 11 1,
  .mov 5 2]

/-- `funchook_hook_caller_asm` between the call and the jump to `hook_func`. -/
def restoreCode : List Instr := [
  .load (-0x80) 5 (.reg 1),
  .load (-0x78) 5 (.reg 2),
  .load (-0x70) 5 (.reg 8),
  .load (-0x68) 5 (.reg 9),
  .load (-0x60) 5 (.xmm 0),
  .load (-0x50) 5 (.xmm 1),
  .load (-0x40) 5 (.xmm 2),
  .load (-0x30) 5 (.xmm 3),
  .load (-0x20) 5 (.xmm 4),
  .load (-0x10) 5 (.xmm 5),
  .leave]

def intArgRegs : List X64.Reg := [1, 2, 8, 9]

def fltArgRegs : List (BitVec 4) := [0, 1, 2, 3, 4, 5]

/-- `rbx`, `rbp`, `rsi`, `rdi`, `r12` to `r15`. -/
def calleeSavedRegs : List X64.Reg := [3, 5, 6, 7, 12, 13, 14, 15]

/-- `xmm6` to `xmm15` -/
def calleeSavedXmms : List (BitVec 4) := [6, 7, 8, 9, 10, 11, 12, 13, 14, 15]

/-- The bytes of home space. -/
def homeSize : ℕ := 32

def enter (hookCaller next : Addr 64) (s : X64.State) : X64.State :=
  (X64.exec saveCode s).call hookCaller next

def exit (s : X64.State) : X64.State := (X64.exec restoreCode s).jumpReg 0

/-- The bridge of `prehook-x86_64-ms.S`. `sp` is taken behind the home space, where the stack
arguments follow a return address; a callee-saved vector register is told in two halves. -/
def bridge (hookCaller next : Addr 64) : Bridge X64.State where
  mem := X64.State.mem
  pc := X64.State.ip
  sp := fun s => s.sp + BitVec.ofNat 64 homeSize
  intArgs := intArgRegs.map fun r s => s.reg r
  fltArgs := fltArgRegs.map fun r s => s.xmm r
  firstArg := fun s => s.reg 1
  secondArg := fun s => s.reg 2
  result := fun s => s.reg 0
  calleeSaved := (calleeSavedRegs.map fun r s => s.reg r) ++
    ((calleeSavedXmms.map fun r s => (s.xmm r).extractLsb' 0 64) ++
      calleeSavedXmms.map fun r s => (s.xmm r).extractLsb' 64 64)
  kept := []
  returnAddr := fun s => readWord 8 s.mem s.sp
  linkSize := 8
  transit := fun s => s.reg 11
  frameSize := 0x88 + homeSize
  getIntRegAddr := funchookArgGetIntRegAddr
  getFltRegAddr := funchookArgGetFltRegAddr
  getStackAddr := funchookArgGetStackAddr
  enter := enter hookCaller next
  exit := exit

theorem bridge_mem (hookCaller next : Addr 64) : (bridge hookCaller next).mem = X64.State.mem := rfl

theorem bridge_exit (hookCaller next : Addr 64) : (bridge hookCaller next).exit = exit := rfl

/-! ### The frame -/

/-- The registers that are saved and restored, with their offsets from `rbp`. -/
def savedRegs : List (X64.Operand × BitVec 64) := [
  (.reg 1, -0x80), (.reg 2, -0x78), (.reg 8, -0x70), (.reg 9, -0x68), (.xmm 0, -0x60),
  (.xmm 1, -0x50), (.xmm 2, -0x40), (.xmm 3, -0x30), (.xmm 4, -0x20), (.xmm 5, -0x10)]

theorem saveCode_eq : saveCode = [.push 5, .mov 4 5, .sub 0xa0 4] ++
    (stores 5 savedRegs ++ [.and 0xfffffffffffffff0 4, .mov 11 1, .mov 5 2]) := rfl

theorem restoreCode_eq : restoreCode = loads 5 savedRegs ++ [.leave] := rfl

/-- The cells of the frame: the saved `rbp`, and the saved registers. -/
def cells (s : X64.State) : List (Cell 64) := ⟨0, 8, s.reg 5⟩ :: savedRegs.map (registers.cell s)

theorem cells_extents (s : X64.State) : (cells s).map Cell.extent =
    [((0 : BitVec 64), 8), (-0x80, 8), (-0x78, 8), (-0x70, 8), (-0x68, 8), (-0x60, 16),
      (-0x50, 16), (-0x40, 16), (-0x30, 16), (-0x20, 16), (-0x10, 16)] := rfl

theorem cells_apart (s : X64.State) : ((cells s).map Cell.extent).Pairwise Apart := by
  rw [cells_extents]
  decide +kernel

theorem cells_within (s : X64.State) :
    ∀ e ∈ (cells s).map Cell.extent, Within 0x80 0x88 e ∧ e.2 ≤ 2 ^ 64 := by
  rw [cells_extents]
  decide +kernel

/-- The base pointer. -/
def basePointer (s : X64.State) : Addr 64 := s.sp - 8

/-- The stack pointer in front of the call. -/
def alignedSp (s : X64.State) : Addr 64 := (basePointer s - 0xa0) &&& 0xfffffffffffffff0

section Enter

variable {hookCaller next : Addr 64} {s : X64.State}

/-- The state in front of the stores. -/
def pushed (s : X64.State) : X64.State := X64.exec [.push 5, .mov 4 5, .sub 0xa0 4] s

theorem exec_saveCode : X64.exec saveCode s =
    X64.exec [.and 0xfffffffffffffff0 4, .mov 11 1, .mov 5 2]
      (registers.storeAll (basePointer s) savedRegs (pushed s)) := by
  rw [saveCode_eq, X64.exec_append, X64.exec_append]
  exact congrArg _ exec_stores

theorem pushed_reg {r : X64.Reg} (h4 : r ≠ 4) (h5 : r ≠ 5) : (pushed s).reg r = s.reg r :=
  (State.writeReg_reg_of_ne _ _ h4).trans ((State.writeReg_reg_of_ne _ _ h5).trans
    (State.writeReg_reg_of_ne _ _ h4))

theorem pushed_cells : savedRegs.map (registers.cell (pushed s)) =
    savedRegs.map (registers.cell s) := by
  apply List.map_congr_left
  intro t ht
  have hne : t.1 ≠ .reg 4 ∧ t.1 ≠ .reg 5 := by
    revert t
    decide
  obtain ⟨o, off⟩ := t
  cases o with
  | reg r =>
    have hreg : (pushed s).reg r = s.reg r :=
      pushed_reg (fun h => hne.1 (congrArg X64.Operand.reg h))
        fun h => hne.2 (congrArg X64.Operand.reg h)
    show (⟨off, 8, (pushed s).reg r⟩ : Cell 64) = ⟨off, 8, s.reg r⟩
    rw [hreg]
  | xmm r => rfl

/-- The memory in front of the call. -/
theorem exec_saveCode_mem : (X64.exec saveCode s).mem = save (basePointer s) (cells s) s.mem := by
  have hbase : (⟨0, 8, s.reg 5⟩ : Cell 64).patch (basePointer s) =
      ⟨basePointer s, leBytes 8 (s.reg 5)⟩ :=
    congrArg (fun a => (⟨a, leBytes 8 (s.reg 5)⟩ : Patch 64)) (BitVec.add_zero (basePointer s))
  rw [exec_saveCode]
  show (registers.storeAll (basePointer s) savedRegs (pushed s)).mem = _
  rw [X64.storeAll_mem, pushed_cells, cells, save, save, List.map_cons, writeAll, hbase]
  rfl

/-- The alignment of the stack pointer, and the two arguments. -/
theorem exec_arguments (t : X64.State) :
    X64.exec [.and 0xfffffffffffffff0 4, .mov 11 1, .mov 5 2] t =
      { t with reg := fun r => if r = 2 then t.reg 5 else if r = 1 then t.reg 11
          else if r = 4 then t.reg 4 &&& 0xfffffffffffffff0 else t.reg r } := rfl

theorem exec_saveCode_reg {r : X64.Reg} (h1 : r ≠ 1) (h2 : r ≠ 2) (h4 : r ≠ 4) (h5 : r ≠ 5) :
    (X64.exec saveCode s).reg r = s.reg r := by
  rw [exec_saveCode, exec_arguments]
  dsimp only
  rw [if_neg h2, if_neg h1, if_neg h4, storeAll_reg, pushed_reg h4 h5]

/-- The registers that hold the arguments of `funchook_hook_caller`, and `rbp` and `rsp`. -/
theorem exec_saveCode_args : (X64.exec saveCode s).reg 1 = s.reg 11 ∧
    (X64.exec saveCode s).reg 2 = basePointer s ∧ (X64.exec saveCode s).reg 5 = basePointer s ∧
      (X64.exec saveCode s).sp = alignedSp s := by
  rw [exec_saveCode, exec_arguments]
  simp only [storeAll_reg, State.sp]
  exact ⟨pushed_reg (by decide) (by decide), rfl, rfl, rfl⟩

theorem exec_saveCode_xmm (r : BitVec 4) : (X64.exec saveCode s).xmm r = s.xmm r := by
  rw [exec_saveCode, exec_arguments]
  exact Registers.storeAll_value (R := registers) (.xmm r)

theorem enter_xmm (r : BitVec 4) : (enter hookCaller next s).xmm r = s.xmm r := by
  show (X64.exec saveCode s).xmm r = s.xmm r
  exact exec_saveCode_xmm r

theorem enter_reg {r : X64.Reg} (hr : r ≠ 4) :
    (enter hookCaller next s).reg r = (X64.exec saveCode s).reg r :=
  X64.call_reg hr

theorem enter_sp : (enter hookCaller next s).sp = alignedSp s - 8 := by
  rw [← exec_saveCode_args.2.2.2]
  exact X64.call_sp _ hookCaller next

theorem enter_mem : (enter hookCaller next s).mem =
    write (save (basePointer s) (cells s) s.mem) (alignedSp s - 8) (leBytes 8 next) := by
  rw [← exec_saveCode_mem, ← exec_saveCode_args.2.2.2]
  exact X64.call_mem _ hookCaller next

/-- The return address of the call and the home space above it are below the saved registers. -/
theorem alignedSp_below {n : ℕ} (hn : n ≤ 2 ^ 63) :
    RangesDisjoint (alignedSp s - 8) (8 + homeSize) (basePointer s - 0x80) n := by
  intro a hlow hhigh
  have hmask : (basePointer s - 0xa0 - alignedSp s).toNat = (basePointer s - 0xa0).toNat % 16 :=
    Blocks.toNat_sub_and_not (show (16 : BitVec 64).toNat = 2 ^ 4 from rfl) _
  have hlt := Nat.mod_lt (basePointer s - 0xa0).toNat (show 0 < 16 by decide)
  have hlow' : (a - (alignedSp s - 8)).toNat < 8 + 32 := hlow
  have hhigh' : (a - (basePointer s - 0x80)).toNat < n := hhigh
  have hsum : a - (alignedSp s - 8) = a - (basePointer s - 0x80) +
      (basePointer s - 0xa0 - alignedSp s) + 0x28 := by
    grind
  have h28 : (0x28 : BitVec 64).toNat = 0x28 := rfl
  rw [hsum, BitVec.toNat_add, BitVec.toNat_add, hmask, h28] at hlow'
  omega

end Enter

/-! ### Slots -/

/-- The offset of a position from the base pointer. -/
def intSlot (i : ℕ) : BitVec 64 := 8 * -intRegOffset + 8 * (BitVec.ofNat 32 i).signExtend 64

def fltSlot (i : ℕ) : BitVec 64 := 8 * -fltRegOffset + 8 * (2 * (BitVec.ofNat 32 i).signExtend 64)

def layout : SlotLayout where
  start := 0x80
  size := 0x90 + homeSize
  size_le := by decide
  ints := (List.range 4).map intSlot
  flts := (List.range 6).map fltSlot

theorem bridge_laidOut (hookCaller next : Addr 64) : (bridge hookCaller next).LaidOut layout where
  int_length := rfl
  flt_length := rfl
  int := by
    intro handle i off h
    rw [getElem?_map_range h]
    exact element_element _ _ _
  flt := by
    intro handle i off h
    rw [getElem?_map_range h]
    exact element_element _ _ _
  stack := by
    intro handle pos hpos
    have hoff : BitVec.ofNat 64 (0xb0 + 8 * pos.toNat) = 0xb0 + 8 * BitVec.ofNat 64 pos.toNat := by
      rw [BitVec.ofNat_add, BitVec.ofNat_mul]
      rfl
    show funchookArgGetStackAddr handle pos = handle.basePointer - 0x80 + BitVec.ofNat 64 (0xb0 + _)
    rw [funchookArgGetStackAddr, element_element, (signExtend_of_nonneg hpos).1, hoff]
    unfold stackOffset
    grind
  size := rfl

/-- `rbp` in the frame, and the return address above it. -/
theorem layout_noSlot : ∀ e ∈ [((0 : BitVec 64), 8), (8, 8)], layout.NoSlot e := by
  decide +kernel

/-! ### The arguments in the frame -/

section Frame

variable {hookCaller next : Addr 64} {s : X64.State}

/-- Every saved value is in its cell when `funchook_hook_caller` is entered. -/
theorem readWord_enter {c : Cell 64} (hc : c ∈ cells s) :
    readWord c.size (enter hookCaller next s).mem (basePointer s + c.offset) = c.value := by
  have hcell : ∀ d ∈ cells s, Within 0x80 0x88 d.extent ∧ d.extent.2 ≤ 2 ^ 64 :=
    fun d hd => cells_within s d.extent (List.mem_map_of_mem hd)
  have hsaved : readWord c.size (save (basePointer s) (cells s) s.mem)
      (basePointer s + c.offset) = c.value :=
    readWord_save (cells_apart s) hc fun d hd => (hcell d hd).2
  rw [enter_mem, ← hsaved]
  apply readWord_congr (hcell c hc).2
  intro a ha
  apply write_of_not_inRange
  rw [leBytes_length]
  exact fun hpush => alignedSp_below (by decide) a (inRange_mono hpush (by decide))
    ((hcell c hc).1.inRange (by decide) ha)

/-- The return address, the home space and the stack arguments are as at the entry. -/
theorem enter_above {k n : ℕ} (hk : 0x88 ≤ k) (hle : k + n ≤ 2 ^ 36) {a : Addr 64}
    (ha : InRange (basePointer s - 0x80 + BitVec.ofNat 64 k) n a) :
    (enter hookCaller next s).mem a = s.mem a := by
  have hlow : ¬ InRange (alignedSp s - 8) 8 a := fun hpush =>
    alignedSp_below (n := k + n) (by omega) a (inRange_mono hpush (by decide))
      (inRange_of_inner ha (Nat.le_refl _) (by omega))
  rw [enter_mem, write_of_not_inRange (by rw [leBytes_length]; exact hlow)]
  apply save_frame
  intro c hc hcell
  exact (cells_within s c.extent (List.mem_map_of_mem hc)).1.disjoint_above hk (by omega)
    (basePointer s) a hcell ha

theorem readWord_enter_above {k : ℕ} (hk : 0x88 ≤ k) (hle : k ≤ 2 ^ 35) :
    readWord 8 (enter hookCaller next s).mem (basePointer s - 0x80 + BitVec.ofNat 64 k) =
      readWord 8 s.mem (basePointer s - 0x80 + BitVec.ofNat 64 k) :=
  readWord_congr (by decide) fun _ ha => enter_above hk (by omega) ha

end Frame

/-! ### The way back -/

section Exit

variable {r : X64.State}

theorem exec_restoreCode : X64.exec restoreCode r =
    X64.exec [.leave] (registers.loadAll (r.reg 5) savedRegs r) := by
  rw [restoreCode_eq, X64.exec_append, exec_loads (by decide)]

theorem exit_reg {q : X64.Reg} (h4 : q ≠ 4) (h5 : q ≠ 5) :
    (exit r).reg q = (registers.loadAll (r.reg 5) savedRegs r).reg q := by
  show (X64.exec restoreCode r).reg q = _
  rw [exec_restoreCode]
  exact SysV.exec_leave _ h4 h5

theorem exit_loaded {q : X64.Reg} (h4 : q ≠ 4) (h5 : q ≠ 5) {off : BitVec 64}
    (h : (X64.Operand.reg q, off) ∈ savedRegs) :
    (exit r).reg q = readWord 8 r.mem (r.reg 5 + off) :=
  (exit_reg h4 h5).trans (X64.loadAll_reg (by decide) h)

theorem exit_unloaded {q : X64.Reg} (h4 : q ≠ 4) (h5 : q ≠ 5)
    (h : X64.Operand.reg q ∉ savedRegs.map Prod.fst) : (exit r).reg q = r.reg q :=
  (exit_reg h4 h5).trans (X64.loadAll_reg_of_notMem h)

theorem exit_xmm {q : BitVec 4} {off : BitVec 64} (h : (X64.Operand.xmm q, off) ∈ savedRegs) :
    (exit r).xmm q = readWord 16 r.mem (r.reg 5 + off) := by
  show (X64.exec restoreCode r).xmm q = _
  rw [exec_restoreCode]
  exact X64.loadAll_xmm (by decide) h

theorem exit_xmm_unloaded {q : BitVec 4} (h : X64.Operand.xmm q ∉ savedRegs.map Prod.fst) :
    (exit r).xmm q = r.xmm q := by
  show (X64.exec restoreCode r).xmm q = _
  rw [exec_restoreCode]
  exact Registers.loadAll_value_of_notMem (R := registers) h

theorem exit_mem : (exit r).mem = r.mem := by
  show ((X64.exec restoreCode r).jumpReg 0).mem = r.mem
  rw [X64.jumpReg_mem, exec_restoreCode, SysV.exec_leave_mem, X64.loadAll_mem]

theorem loadAll_basePointer : (registers.loadAll (r.reg 5) savedRegs r).reg 5 = r.reg 5 :=
  X64.loadAll_reg_of_notMem (by decide)

/-- `leave` finds the stack pointer in `rbp`, whatever it was aligned to. -/
theorem exit_sp : (exit r).sp = r.reg 5 + 8 := by
  show (X64.exec restoreCode r).reg 4 = r.reg 5 + 8
  rw [exec_restoreCode]
  show (registers.loadAll (r.reg 5) savedRegs r).reg 5 + 8 = _
  rw [loadAll_basePointer]

theorem exit_rbp : (exit r).reg 5 = readWord 8 r.mem (r.reg 5) := by
  show (X64.exec restoreCode r).reg 5 = _
  rw [exec_restoreCode]
  show readWord 8 (registers.loadAll (r.reg 5) savedRegs r).mem
    ((registers.loadAll (r.reg 5) savedRegs r).reg 5) = _
  rw [loadAll_basePointer, X64.loadAll_mem]

theorem exit_pc : (exit r).ip = r.reg 0 := exit_unloaded (by decide) (by decide) (by decide)

end Exit

/-! ### The bridge forwards -/

section Forwards

variable {hookCaller next : Addr 64} {s : X64.State}

/-- An argument register is saved at its slot. -/
theorem intArgs_slot {i : ℕ} {f : X64.State → BitVec 64} {off : BitVec 64}
    (h : (bridge hookCaller next).intArgs[i]? = some f) (hoff : layout.ints[i]? = some off) :
    ∃ q : X64.Reg, f = (fun s => s.reg q) ∧ q ≠ 4 ∧ q ≠ 5 ∧
      (X64.Operand.reg q, off) ∈ savedRegs := by
  have hall : ∀ p ∈ intArgRegs.zipIdx, p.1 ≠ 4 ∧ p.1 ≠ 5 ∧
      (X64.Operand.reg p.1, intSlot p.2) ∈ savedRegs := by decide
  exact args_slot (S := fun q off => q ≠ 4 ∧ q ≠ 5 ∧ (X64.Operand.reg q, off) ∈ savedRegs)
    hall h hoff

theorem fltArgs_slot {i : ℕ} {f : X64.State → BitVec 128} {off : BitVec 64}
    (h : (bridge hookCaller next).fltArgs[i]? = some f) (hoff : layout.flts[i]? = some off) :
    ∃ q : BitVec 4, f = (fun s => s.xmm q) ∧ (X64.Operand.xmm q, off) ∈ savedRegs := by
  have hall : ∀ p ∈ fltArgRegs.zipIdx, (X64.Operand.xmm p.1, fltSlot p.2) ∈ savedRegs := by decide
  exact args_slot (S := fun q off => (X64.Operand.xmm q, off) ∈ savedRegs) hall h hoff

theorem enter_cell {o : X64.Operand} {off : BitVec 64} (h : (o, off) ∈ savedRegs) :
    readWord o.size (enter hookCaller next s).mem (basePointer s + off) = s.value o :=
  readWord_enter (List.mem_cons_of_mem _ (List.mem_map_of_mem (f := registers.cell s) h))

/-- `rbp` is pushed and comes back with `leave`. -/
theorem saved_basePointer :
    (bridge hookCaller next).Saved layout basePointer (fun r => r.reg 5) (fun s => s.reg 5) := by
  refine ⟨0, layout_noSlot (0, 8) (by decide), fun s => ?_, fun r => ?_⟩
  · show readWord 8 (enter hookCaller next s).mem (basePointer s + 0) = s.reg 5
    exact readWord_enter (c := ⟨0, 8, s.reg 5⟩) List.mem_cons_self
  · show (exit r).reg 5 = readWord 8 r.mem (r.reg 5 + 0)
    rw [exit_rbp, show r.reg 5 + 0 = r.reg 5 from BitVec.add_zero (r.reg 5)]

theorem saved_returnAddr : (bridge hookCaller next).Saved layout basePointer (fun r => r.reg 5)
    (bridge hookCaller next).returnAddr := by
  refine ⟨8, layout_noSlot (8, 8) (by decide), fun s => ?_, fun r => ?_⟩
  · have habove : readWord 8 (enter hookCaller next s).mem
        (basePointer s - 0x80 + BitVec.ofNat 64 0x88) = _ :=
      readWord_enter_above (Nat.le_refl _) (by decide)
    have hsp : basePointer s - 0x80 + BitVec.ofNat 64 0x88 = basePointer s + 8 := by grind
    rw [hsp, show basePointer s + 8 = s.sp from BitVec.sub_add_cancel s.sp 8] at habove
    rw [show basePointer s + 8 = s.sp from BitVec.sub_add_cancel s.sp 8]
    exact habove
  · show readWord 8 (exit r).mem (exit r).sp = _
    rw [exit_mem, exit_sp]
    rfl

/-- The other registers that a function keeps are in no instruction of the bridge. -/
theorem untouched_reg {q : X64.Reg} (hq : q ∈ calleeSavedRegs) (h5 : q ≠ 5) :
    (bridge hookCaller next).Untouched fun s => s.reg q := by
  have hne : q ≠ 1 ∧ q ≠ 2 ∧ q ≠ 4 ∧ X64.Operand.reg q ∉ savedRegs.map Prod.fst := by
    revert q
    decide
  obtain ⟨h1, h2, h4, hnot⟩ := hne
  constructor
  · intro s
    show (enter hookCaller next s).reg q = s.reg q
    rw [enter_reg h4]
    exact exec_saveCode_reg h1 h2 h4 h5
  · intro r
    exact exit_unloaded h4 h5 hnot

theorem untouched_xmm {q : BitVec 4} (hq : q ∈ calleeSavedXmms) (off : ℕ) :
    (bridge hookCaller next).Untouched fun s => (s.xmm q).extractLsb' off 64 := by
  have hnot : X64.Operand.xmm q ∉ savedRegs.map Prod.fst := by
    revert q
    decide
  constructor
  · intro s
    show ((enter hookCaller next s).xmm q).extractLsb' off 64 = (s.xmm q).extractLsb' off 64
    rw [enter_xmm]
  · intro r
    show ((exit r).xmm q).extractLsb' off 64 = (r.xmm q).extractLsb' off 64
    rw [exit_xmm_unloaded hnot]

/-- A register that a function keeps is pushed, or the bridge does not change it. -/
theorem calleeSaved_kept {f : X64.State → BitVec 64}
    (hf : f ∈ (bridge hookCaller next).calleeSaved) :
    (bridge hookCaller next).Saved layout basePointer (fun r => r.reg 5) f ∨
      (bridge hookCaller next).Untouched f := by
  rcases List.mem_append.mp hf with hreg | hxmm
  · obtain ⟨q, hq, rfl⟩ := List.mem_map.mp hreg
    by_cases h5 : q = 5
    · subst h5
      exact Or.inl saved_basePointer
    · exact Or.inr (untouched_reg hq h5)
  · rcases List.mem_append.mp hxmm with hlow | hhigh
    · obtain ⟨q, hq, rfl⟩ := List.mem_map.mp hlow
      exact Or.inr (untouched_xmm hq 0)
    · obtain ⟨q, hq, rfl⟩ := List.mem_map.mp hhigh
      exact Or.inr (untouched_xmm hq 64)

/-- **The frame of the Windows bridge**, with the home space of the target above it. -/
theorem bridge_framed (hookCaller next : Addr 64) :
    (bridge hookCaller next).Framed layout basePointer fun r => r.reg 5 where
  laidOut := bridge_laidOut hookCaller next
  transit := by
    intro s
    show (enter hookCaller next s).reg 1 = s.reg 11
    rw [enter_reg (by decide)]
    exact exec_saveCode_args.1
  secondArg := by
    intro s
    show (enter hookCaller next s).reg 2 = basePointer s
    rw [enter_reg (by decide)]
    exact exec_saveCode_args.2.1
  start := by
    intro s
    show s.sp - 8 - 0x80 = s.sp + BitVec.ofNat 64 32 - BitVec.ofNat 64 0xa8
    grind
  intSaved := by
    intro s i f off hf hoff
    obtain ⟨q, rfl, -, -, hmem⟩ := intArgs_slot hf hoff
    show readWord 8 (enter hookCaller next s).mem (basePointer s + off) = s.reg q
    exact enter_cell hmem
  fltSaved := by
    intro s i f off hf hoff
    obtain ⟨q, rfl, hmem⟩ := fltArgs_slot hf hoff
    show readWord 16 (enter hookCaller next s).mem (basePointer s + off) = s.xmm q
    exact enter_cell hmem
  stackKept := by
    intro s n hn
    have hk : 0x88 ≤ layout.size + 8 * n := Nat.le_trans (by decide) (Nat.le_add_right _ _)
    have hle : layout.size + 8 * n ≤ 2 ^ 35 := by
      show 0xb0 + 8 * n ≤ 2 ^ 35
      omega
    show readWord 8 (enter hookCaller next s).mem (basePointer s - 0x80 + _) = _
    exact readWord_enter_above hk hle
  backEq := by
    intro s r hsaved hsp
    have hmem : (fun t : X64.State => t.reg 5) ∈ (bridge hookCaller next).calleeSaved :=
      List.mem_append_left _ (List.mem_map_of_mem (f := fun q (t : X64.State) => t.reg q)
        (show (5 : X64.Reg) ∈ calleeSavedRegs by decide))
    rw [show r.reg 5 = (enter hookCaller next s).reg 5 from hsaved _ hmem,
      enter_reg (by decide)]
    exact exec_saveCode_args.2.2.1
  intLoaded := by
    intro r i f off hf hoff
    obtain ⟨q, rfl, h4, h5, hmem⟩ := intArgs_slot hf hoff
    show (exit r).reg q = readWord 8 r.mem (r.reg 5 + off)
    exact exit_loaded h4 h5 hmem
  fltLoaded := by
    intro r i f off hf hoff
    obtain ⟨q, rfl, hmem⟩ := fltArgs_slot hf hoff
    show (exit r).xmm q = readWord 16 r.mem (r.reg 5 + off)
    exact exit_xmm hmem
  exitMem := by
    intro r
    rw [bridge_mem, bridge_exit]
    exact exit_mem
  exitSp := by
    intro r
    show (exit r).sp + BitVec.ofNat 64 32 = r.reg 5 - 0x80 + BitVec.ofNat 64 0xa8
    rw [exit_sp]
    grind
  exitPc := by
    intro r
    show (exit r).ip = r.reg 0
    exact exit_pc
  returnAddr := saved_returnAddr
  calleeSaved := fun _ hf => calleeSaved_kept hf
  kept := fun _ hf => absurd hf List.not_mem_nil

end Forwards

/-! ### Home space -/

section Home

variable {hookCaller next : Addr 64} {P : Platform 64} {fh : FunchookT 64}
  {callback : Addr 64 → FunchookInfo 64 → FunchookInfo 64} {entry returned : X64.State}
  {call : HookCall 64}

/-- What `funchook_hook_caller` is given as home space is not in the frame. -/
theorem home_below {a : Addr 64}
    (ha : InRange (enter hookCaller next entry).sp (8 + homeSize) a) :
    ¬ (bridge hookCaller next).InFrame entry a := by
  intro hframe
  have hstart : entry.sp + BitVec.ofNat 64 32 - BitVec.ofNat 64 0xa8 = basePointer entry - 0x80 :=
    ((bridge_framed hookCaller next).start entry).symm
  rw [enter_sp] at ha
  refine alignedSp_below (n := 0xb0) (by decide) a ha ?_
  rw [← hstart]
  exact hframe

/-- The home space of the target comes to the hook as it was. -/
theorem home_kept (hreturns : (bridge hookCaller next).Returns P fh callback entry returned call)
    {a : Addr 64} (ha : InRange (entry.sp + 8) homeSize a) :
    (exit returned).mem a = entry.mem a := by
  have hf := bridge_framed hookCaller next
  have hslot : layout.NoSlot (16, homeSize) := by decide +kernel
  have hbase : entry.sp + 8 = basePointer entry + 16 := by
    unfold basePointer
    grind
  have habove : basePointer entry - 0x80 + BitVec.ofNat 64 0x90 = entry.sp + 8 := by
    unfold basePointer
    grind
  have hhandle : call.info.argHandle.basePointer = basePointer entry :=
    (funchookHookCaller_basePointer hreturns.called).trans (hf.secondArg entry)
  have hframe : (bridge hookCaller next).InFrame entry a := by
    have hin : InRange (basePointer entry - layout.start) layout.size a :=
      hslot.1.inRange (by decide) (hbase ▸ ha)
    rw [← hf.laidOut.size] at hin
    show InRange ((bridge hookCaller next).sp entry - _) _ a
    rw [← hf.start]
    exact hin
  have hnot : ¬ (bridge hookCaller next).Slot call.info.argHandle a := by
    refine hf.laidOut.not_slot hslot ?_
    rw [hhandle]
    exact hbase ▸ ha
  rw [exit_mem]
  rw [← habove] at ha
  have hentered : (enter hookCaller next entry).mem a = entry.mem a :=
    enter_above (by decide) (by decide) ha
  exact (hreturns.mem a hframe hnot).trans hentered

/-- **The Windows bridge forwards the arguments and honours edits.** `funchook_hook_caller` may use
the home space that it is given, and the hook finds the home space of the target as it was. -/
theorem bridge_forwards (hreturns :
    (bridge hookCaller next).Returns P fh callback entry returned call) :
    (bridge hookCaller next).Forwarded entry returned call ∧
      (∀ a, InRange (enter hookCaller next entry).sp (8 + homeSize) a →
        ¬ (bridge hookCaller next).InFrame entry a) ∧
      ∀ a, InRange (entry.sp + 8) homeSize a → (exit returned).mem a = entry.mem a :=
  ⟨(bridge_framed hookCaller next).forwards hreturns, fun _ => home_below,
    fun _ => home_kept hreturns⟩

/-! ### A prehook that edits the fifth argument -/

/-- The state behind a call that `t` is in front of, and whose prehook stores `value` in the first
slot on the stack. -/
def edited (call : HookCall 64) (value : BitVec 64) (t : X64.State) : X64.State where
  reg := fun q => if q = 0 then call.result else if q = 4 then t.sp + 8 else t.reg q
  xmm := t.xmm
  mem := write t.mem (funchookArgGetStackAddr call.info.argHandle 0) (leBytes 8 value)
  ip := readWord 8 t.mem t.sp

theorem edited_reg {t : X64.State} {value : BitVec 64} (q : X64.Reg) :
    (edited call value t).reg q =
      if q = 0 then call.result else if q = 4 then t.sp + 8 else t.reg q := rfl

theorem edited_returns {value : BitVec 64}
    (h : funchookHookCaller P fh callback (entry.reg 11) (basePointer entry) = some call) :
    (bridge hookCaller next).Returns P fh callback entry
      (edited call value (enter hookCaller next entry)) call := by
  have hf := bridge_framed hookCaller next
  constructor
  case called =>
    rw [hf.transit, hf.secondArg]
    exact h
  case result =>
    show (edited call value (enter hookCaller next entry)).reg 0 = call.result
    rw [edited_reg, if_pos rfl]
  case pc => rfl
  case sp =>
    show (enter hookCaller next entry).sp + 8 + BitVec.ofNat 64 32 =
      (enter hookCaller next entry).sp + BitVec.ofNat 64 32 + BitVec.ofNat 64 8
    grind
  case calleeSaved =>
    intro f hf
    rcases List.mem_append.mp hf with hreg | hxmm
    · obtain ⟨q, hq, rfl⟩ := List.mem_map.mp hreg
      have hall : ∀ q ∈ calleeSavedRegs, q ≠ 0 ∧ q ≠ 4 := by decide
      show (edited call value (enter hookCaller next entry)).reg q = _
      rw [edited_reg, if_neg (hall q hq).1, if_neg (hall q hq).2]
      rfl
    · rcases List.mem_append.mp hxmm with hlow | hhigh
      · obtain ⟨q, -, rfl⟩ := List.mem_map.mp hlow
        rfl
      · obtain ⟨q, -, rfl⟩ := List.mem_map.mp hhigh
        rfl
  case mem =>
    intro a _ hslot
    apply write_of_not_inRange
    rw [leBytes_length]
    exact fun hin => hslot (Or.inr (Or.inr ⟨0, by decide, hin⟩))

theorem bridge_forwards_edited :
    (bridge 0x402000 0x403000).Forwarded sampleEntryX64
      (edited sampleCall 42 (enter 0x402000 0x403000 sampleEntryX64)) sampleCall ∧
    (∀ a, InRange (enter 0x402000 0x403000 sampleEntryX64).sp (8 + homeSize) a →
      ¬ (bridge 0x402000 0x403000).InFrame sampleEntryX64 a) ∧
    ∀ a, InRange (sampleEntryX64.sp + 8) homeSize a →
      (exit (edited sampleCall 42 (enter 0x402000 0x403000 sampleEntryX64))).mem a =
        sampleEntryX64.mem a := by
  have hcall : funchookHookCaller samplePlatform sampleHandle.fh (fun _ info => info) sampleSlot
      0x7ffe00001000 = some sampleCall := (Option.some_get _).symm
  exact bridge_forwards (edited_returns hcall)

end Home

end Win64

end Funchook
