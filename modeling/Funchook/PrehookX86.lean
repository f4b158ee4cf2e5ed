import Funchook.Lib.Blocks
import Funchook.Lib.X64
import Funchook.PrehookBridge

/-!
# The bridge of x86-64 (`prehook-x86_64-sysv.S`, `arch_x86.c`)

The System V bridge keeps `rbp` as the base of its frame and aligns `rsp` below it. Its frame has
the argument registers at negative offsets, then the pushed `rbp` and the return address.
-/

namespace Funchook

open ByteMemory Frame

namespace SysV

open X64

def intRegOffset : BitVec 64 := 0xc0 / 8

def fltRegOffset : BitVec 64 := 0x80 / 8

def stackOffset : BitVec 64 := 2

def funchookArgGetIntRegAddr (argHandle : FunchookArgHandle 64) (pos : BitVec 32) : Addr 64 :=
  element (element argHandle.basePointer (-intRegOffset)) (pos.signExtend 64)

def funchookArgGetFltRegAddr (argHandle : FunchookArgHandle 64) (pos : BitVec 32) : Addr 64 :=
  element (element argHandle.basePointer (-fltRegOffset)) (2 * pos.signExtend 64)

def funchookArgGetStackAddr (argHandle : FunchookArgHandle 64) (pos : BitVec 32) : Addr 64 :=
  element (element argHandle.basePointer stackOffset) (pos.signExtend 64)

/-- `funchook_hook_caller_asm` up to the call. -/
def saveCode : List Instr := [
  .endbr64,
  .push 5,
  .mov 4 5,
  .sub 0xc0 4,
  -- integer or pointer arguments
  .store (.reg 7) (-0xc0) 5,
  .store (.reg 6) (-0xb8) 5,
  .store (.reg 2) (-0xb0) 5,
  .store (.reg 1) (-0xa8) 5,
  .store (.reg 8) (-0xa0) 5,
  .store (.reg 9) (-0x98) 5,
  -- the number of floating-point arguments of a variadic function
  .store (.reg 0) (-0x90) 5,
  -- the static chain pointer
  .store (.reg 10) (-0x88) 5,
  .store (.xmm 0) (-0x80) 5,
  .store (.xmm 1) (-0x70) 5,
  .store (.xmm 2) (-0x60) 5,
  .store (.xmm 3) (-0x50) 5,
  .store (.xmm 4) (-0x40) 5,
  .store (.xmm 5) (-0x30) 5,
  .store (.xmm 6) (-0x20) 5,
  .store (.xmm 7) (-0x10) 5,
  .and 0xfffffffffffffff0 4,
  .mov 11 7,
  .mov 5 6]

/-- `funchook_hook_caller_asm` between the call and the jump to `hook_func`. -/
def restoreCode : List Instr := [
  .mov 0 11,
  .load (-0xc0) 5 (.reg 7),
  .load (-0xb8) 5 (.reg 6),
  .load (-0xb0) 5 (.reg 2),
  .load (-0xa8) 5 (.reg 1),
  .load (-0xa0) 5 (.reg 8),
  .load (-0x98) 5 (.reg 9),
  .load (-0x90) 5 (.reg 0),
  .load (-0x88) 5 (.reg 10),
  .load (-0x80) 5 (.xmm 0),
  .load (-0x70) 5 (.xmm 1),
  .load (-0x60) 5 (.xmm 2),
  .load (-0x50) 5 (.xmm 3),
  .load (-0x40) 5 (.xmm 4),
  .load (-0x30) 5 (.xmm 5),
  .load (-0x20) 5 (.xmm 6),
  .load (-0x10) 5 (.xmm 7),
  .leave]

def intArgRegs : List X64.Reg := [7, 6, 2, 1, 8, 9]

def fltArgRegs : List (BitVec 4) := [0, 1, 2, 3, 4, 5, 6, 7]

/-- `rbx`, `rbp`, `r12` to `r15`. -/
def calleeSavedRegs : List X64.Reg := [3, 5, 12, 13, 14, 15]

/-- From the entry of the bridge to that of `funchook_hook_caller`, which stands at `hookCaller`;
the instruction behind the call is at `next`. -/
def enter (hookCaller next : Addr 64) (s : X64.State) : X64.State :=
  (X64.exec saveCode s).call hookCaller next

/-- From the return of `funchook_hook_caller` to `hook_func`. -/
def exit (s : X64.State) : X64.State := (X64.exec restoreCode s).jumpReg 11

/-- The bridge of `prehook-x86_64-sysv.S`, where `funchook_hook_caller` stands at `hookCaller` and
the instruction behind its call at `next`. -/
def bridge (hookCaller next : Addr 64) : Bridge X64.State where
  mem := X64.State.mem
  pc := X64.State.ip
  sp := X64.State.sp
  intArgs := intArgRegs.map fun r s => s.reg r
  fltArgs := fltArgRegs.map fun r s => s.xmm r
  firstArg := fun s => s.reg 7
  secondArg := fun s => s.reg 6
  result := fun s => s.reg 0
  calleeSaved := calleeSavedRegs.map fun r s => s.reg r
  kept := [fun s => s.reg 0, fun s => s.reg 10]
  returnAddr := fun s => readWord 8 s.mem s.sp
  linkSize := 8
  transit := fun s => s.reg 11
  frameSize := 0xc8
  getIntRegAddr := funchookArgGetIntRegAddr
  getFltRegAddr := funchookArgGetFltRegAddr
  getStackAddr := funchookArgGetStackAddr
  enter := enter hookCaller next
  exit := exit

theorem bridge_mem (hookCaller next : Addr 64) : (bridge hookCaller next).mem = X64.State.mem := rfl

theorem bridge_exit (hookCaller next : Addr 64) : (bridge hookCaller next).exit = exit := rfl

/-! ### The frame -/

/-- The registers that are saved and restored, with their offsets from `rbp`. -/
def savedRegs : List (X64.Operand × BitVec 64) := [
  (.reg 7, -0xc0), (.reg 6, -0xb8), (.reg 2, -0xb0), (.reg 1, -0xa8), (.reg 8, -0xa0),
  (.reg 9, -0x98), (.reg 0, -0x90), (.reg 10, -0x88), (.xmm 0, -0x80), (.xmm 1, -0x70),
  (.xmm 2, -0x60), (.xmm 3, -0x50), (.xmm 4, -0x40), (.xmm 5, -0x30), (.xmm 6, -0x20),
  (.xmm 7, -0x10)]

theorem saveCode_eq : saveCode = [.endbr64, .push 5, .mov 4 5, .sub 0xc0 4] ++
    (stores 5 savedRegs ++ [.and 0xfffffffffffffff0 4, .mov 11 7, .mov 5 6]) := rfl

theorem restoreCode_eq : restoreCode = [.mov 0 11] ++ (loads 5 savedRegs ++ [.leave]) := rfl

/-- The cells of the frame: the saved `rbp`, and the saved registers. -/
def cells (s : X64.State) : List (Cell 64) := ⟨0, 8, s.reg 5⟩ :: savedRegs.map (registers.cell s)

theorem cells_apart (s : X64.State) : ((cells s).map Cell.extent).Pairwise Apart := by
  show List.Pairwise Apart [((0 : BitVec 64), 8), (-0xc0, 8), (-0xb8, 8), (-0xb0, 8), (-0xa8, 8),
    (-0xa0, 8), (-0x98, 8), (-0x90, 8), (-0x88, 8), (-0x80, 16), (-0x70, 16), (-0x60, 16),
    (-0x50, 16), (-0x40, 16), (-0x30, 16), (-0x20, 16), (-0x10, 16)]
  decide +kernel

/-- The base pointer. -/
def basePointer (s : X64.State) : Addr 64 := s.sp - 8

/-- The stack pointer behind the pushed return address. -/
def calledSp (s : X64.State) : Addr 64 :=
  ((basePointer s - 0xc0) &&& 0xfffffffffffffff0) - 8

section Enter

variable {hookCaller next : Addr 64} {s : X64.State}

/-- The state in front of the stores. -/
def pushed (s : X64.State) : X64.State := X64.exec [.endbr64, .push 5, .mov 4 5, .sub 0xc0 4] s

theorem exec_saveCode : X64.exec saveCode s =
    X64.exec [.and 0xfffffffffffffff0 4, .mov 11 7, .mov 5 6]
      (registers.storeAll (basePointer s) savedRegs (pushed s)) := by
  rw [saveCode_eq, X64.exec_append, X64.exec_append]
  exact congrArg _ exec_stores

theorem pushed_reg {r : X64.Reg} (h4 : r ≠ 4) (h5 : r ≠ 5) : (pushed s).reg r = s.reg r :=
  (State.writeReg_reg_of_ne _ _ h4).trans ((State.writeReg_reg_of_ne _ _ h5).trans
    (State.writeReg_reg_of_ne _ _ h4))

theorem pushed_cells : savedRegs.map (registers.cell (pushed s)) =
    savedRegs.map (registers.cell s) := by
  apply List.map_congr_left
  intro t ht
  have hne : t.1 ≠ .reg 4 ∧ t.1 ≠ .reg 5 := by
    revert t
    decide
  obtain ⟨o, off⟩ := t
  cases o with
  | reg r =>
    have hreg : (pushed s).reg r = s.reg r :=
      pushed_reg (fun h => hne.1 (congrArg X64.Operand.reg h))
        fun h => hne.2 (congrArg X64.Operand.reg h)
    show (⟨off, 8, (pushed s).reg r⟩ : Cell 64) = ⟨off, 8, s.reg r⟩
    rw [hreg]
  | xmm r => rfl

/-- The memory in front of the call. -/
theorem exec_saveCode_mem : (X64.exec saveCode s).mem = save (basePointer s) (cells s) s.mem := by
  have hbase : (⟨0, 8, s.reg 5⟩ : Cell 64).patch (basePointer s) =
      ⟨basePointer s, leBytes 8 (s.reg 5)⟩ :=
    congrArg (fun a => (⟨a, leBytes 8 (s.reg 5)⟩ : Patch 64)) (BitVec.add_zero (basePointer s))
  rw [exec_saveCode]
  show (registers.storeAll (basePointer s) savedRegs (pushed s)).mem = _
  rw [X64.storeAll_mem, pushed_cells, cells, save, save, List.map_cons, writeAll, hbase]
  rfl

/-- The alignment of the stack pointer, and the two arguments. -/
theorem exec_arguments (t : X64.State) :
    X64.exec [.and 0xfffffffffffffff0 4, .mov 11 7, .mov 5 6] t =
      { t with reg := fun r => if r = 6 then t.reg 5 else if r = 7 then t.reg 11
          else if r = 4 then t.reg 4 &&& 0xfffffffffffffff0 else t.reg r } := rfl

theorem exec_saveCode_reg {r : X64.Reg} (h4 : r ≠ 4) (h5 : r ≠ 5) (h6 : r ≠ 6) (h7 : r ≠ 7) :
    (X64.exec saveCode s).reg r = s.reg r := by
  rw [exec_saveCode, exec_arguments]
  dsimp only
  rw [if_neg h6, if_neg h7, if_neg h4, storeAll_reg, pushed_reg h4 h5]

/-- The registers that hold the arguments of `funchook_hook_caller`, and `rbp` and `rsp`. -/
theorem exec_saveCode_args : (X64.exec saveCode s).reg 7 = s.reg 11 ∧
    (X64.exec saveCode s).reg 6 = basePointer s ∧ (X64.exec saveCode s).reg 5 = basePointer s ∧
      (X64.exec saveCode s).sp - 8 = calledSp s := by
  rw [exec_saveCode, exec_arguments]
  simp only [storeAll_reg, State.sp]
  exact ⟨pushed_reg (by decide) (by decide), rfl, rfl, rfl⟩

theorem exec_saveCode_xmm (r : BitVec 4) : (X64.exec saveCode s).xmm r = s.xmm r := by
  rw [exec_saveCode, exec_arguments]
  exact Registers.storeAll_value (R := registers) (.xmm r)

theorem enter_reg {r : X64.Reg} (hr : r ≠ 4) :
    (enter hookCaller next s).reg r = (X64.exec saveCode s).reg r :=
  X64.call_reg hr

theorem enter_sp : (enter hookCaller next s).sp = calledSp s :=
  (X64.call_sp _ hookCaller next).trans exec_saveCode_args.2.2.2

theorem enter_mem : (enter hookCaller next s).mem =
    write (save (basePointer s) (cells s) s.mem) (calledSp s) (leBytes 8 next) := by
  rw [← exec_saveCode_mem, ← exec_saveCode_args.2.2.2]
  exact X64.call_mem _ hookCaller next

/-- The return address of the call is pushed below the frame. -/
theorem calledSp_below {n : ℕ} (hn : n ≤ 2 ^ 63) :
    RangesDisjoint (calledSp s) 8 (basePointer s - 0xc0) n := by
  intro a hlow hhigh
  have hmask : (basePointer s - 0xc0 - ((basePointer s - 0xc0) &&& 0xfffffffffffffff0)).toNat =
      (basePointer s - 0xc0).toNat % 16 :=
    Blocks.toNat_sub_and_not (show (16 : BitVec 64).toNat = 2 ^ 4 from rfl) _
  have hlt := Nat.mod_lt (basePointer s - 0xc0).toNat (show 0 < 16 by decide)
  have hlow' : (a - calledSp s).toNat < 8 := hlow
  have hhigh' : (a - (basePointer s - 0xc0)).toNat < n := hhigh
  have hsum : a - calledSp s = a - (basePointer s - 0xc0) +
      (basePointer s - 0xc0 - ((basePointer s - 0xc0) &&& 0xfffffffffffffff0)) + 8 := by
    unfold calledSp
    grind
  have h8 : (8 : BitVec 64).toNat = 8 := rfl
  rw [hsum, BitVec.toNat_add, BitVec.toNat_add, hmask, h8] at hlow'
  omega

end Enter

/-! ### Slots -/

/-- The offset of a position from the base pointer. -/
def intSlot (i : ℕ) : BitVec 64 := 8 * -intRegOffset + 8 * (BitVec.ofNat 32 i).signExtend 64

def fltSlot (i : ℕ) : BitVec 64 := 8 * -fltRegOffset + 8 * (2 * (BitVec.ofNat 32 i).signExtend 64)

def layout : SlotLayout where
  start := 0xc0
  size := 0xd0
  size_le := by decide
  ints := (List.range 6).map intSlot
  flts := (List.range 8).map fltSlot

theorem bridge_laidOut (hookCaller next : Addr 64) : (bridge hookCaller next).LaidOut layout where
  int_length := rfl
  flt_length := rfl
  int := by
    intro handle i off h
    rw [getElem?_map_range h]
    exact element_element _ _ _
  flt := by
    intro handle i off h
    rw [getElem?_map_range h]
    exact element_element _ _ _
  stack := by
    intro handle pos hpos
    have hoff : BitVec.ofNat 64 (0xd0 + 8 * pos.toNat) = 0xd0 + 8 * BitVec.ofNat 64 pos.toNat := by
      rw [BitVec.ofNat_add, BitVec.ofNat_mul]
      rfl
    show funchookArgGetStackAddr handle pos = handle.basePointer - 0xc0 + BitVec.ofNat 64 (0xd0 + _)
    rw [funchookArgGetStackAddr, element_element, (signExtend_of_nonneg hpos).1, hoff]
    unfold stackOffset
    grind
  size := rfl

/-- `rbp`, `rax` and `r10` in the frame, and the return address above it. -/
theorem layout_noSlot : ∀ e ∈ [((0 : BitVec 64), 8), (-0x90, 8), (-0x88, 8), (8, 8)],
    layout.NoSlot e := by
  decide +kernel

/-! ### The arguments in the frame -/

section Frame

variable {hookCaller next : Addr 64} {s : X64.State}

theorem cells_within : ∀ e ∈ (cells s).map Cell.extent, Within 0xc0 0xc8 e ∧ e.2 ≤ 2 ^ 64 := by
  show ∀ e ∈ [((0 : BitVec 64), 8), (-0xc0, 8), (-0xb8, 8), (-0xb0, 8), (-0xa8, 8),
    (-0xa0, 8), (-0x98, 8), (-0x90, 8), (-0x88, 8), (-0x80, 16), (-0x70, 16), (-0x60, 16),
    (-0x50, 16), (-0x40, 16), (-0x30, 16), (-0x20, 16), (-0x10, 16)], _
  decide +kernel

/-- Every saved value is in its cell when `funchook_hook_caller` is entered. -/
theorem readWord_enter {c : Cell 64} (hc : c ∈ cells s) :
    readWord c.size (enter hookCaller next s).mem (basePointer s + c.offset) =
      c.value := by
  have hcell : ∀ d ∈ cells s, Within 0xc0 0xc8 d.extent ∧ d.extent.2 ≤ 2 ^ 64 :=
    fun d hd => cells_within d.extent (List.mem_map_of_mem hd)
  have hsaved : readWord c.size (save (basePointer s) (cells s) s.mem)
      (basePointer s + c.offset) = c.value :=
    readWord_save (cells_apart s) hc fun d hd => (hcell d hd).2
  rw [enter_mem, ← hsaved]
  apply readWord_congr (hcell c hc).2
  intro a ha
  apply write_of_not_inRange
  rw [leBytes_length]
  exact fun hpush => calledSp_below (by decide) a hpush ((hcell c hc).1.inRange (by decide) ha)

/-- The return address and the memory above it are as at the entry. -/
theorem readWord_enter_above {k : ℕ} (hk : 0xc8 ≤ k) (hle : k ≤ 2 ^ 35) :
    readWord 8 (enter hookCaller next s).mem
      (basePointer s - 0xc0 + BitVec.ofNat 64 k) =
        readWord 8 s.mem (basePointer s - 0xc0 + BitVec.ofNat 64 k) := by
  apply readWord_congr (by decide)
  intro a ha
  have hlow : ¬ InRange (calledSp s) 8 a := fun hpush =>
    calledSp_below (n := k + 8) (by omega) a hpush (inRange_of_inner ha (Nat.le_refl _) (by omega))
  rw [enter_mem, write_of_not_inRange (by rw [leBytes_length]; exact hlow)]
  apply save_frame
  intro c hc hcell
  exact (cells_within c.extent (List.mem_map_of_mem hc)).1.disjoint_above hk (by omega)
    (basePointer s) a hcell ha

end Frame

/-! ### The way back -/

section Exit

variable {r : X64.State}

/-- The address of the hook, in `r11` while the registers are restored. -/
def hookMoved (r : X64.State) : X64.State := r.writeReg 11 (r.reg 0)

theorem exec_restoreCode : X64.exec restoreCode r =
    X64.exec [.leave] (registers.loadAll (r.reg 5) savedRegs (hookMoved r)) := by
  have hbase : (hookMoved r).reg 5 = r.reg 5 := State.writeReg_reg_of_ne r _ (by decide)
  rw [restoreCode_eq, X64.exec_append, X64.exec_append]
  show X64.exec [.leave] (X64.exec (loads 5 savedRegs) (hookMoved r)) = _
  rw [exec_loads (by decide), hbase]

theorem exec_leave (t : X64.State) {q : X64.Reg} (h4 : q ≠ 4) (h5 : q ≠ 5) :
    (X64.exec [.leave] t).reg q = t.reg q :=
  (State.writeReg_reg_of_ne _ _ h5).trans (State.writeReg_reg_of_ne _ _ h4)

theorem exit_reg {q : X64.Reg} (h4 : q ≠ 4) (h5 : q ≠ 5) :
    (exit r).reg q =
      (registers.loadAll (r.reg 5) savedRegs (hookMoved r)).reg q := by
  show (X64.exec restoreCode r).reg q = _
  rw [exec_restoreCode]
  exact exec_leave _ h4 h5

theorem exit_loaded {q : X64.Reg} (h4 : q ≠ 4) (h5 : q ≠ 5) {off : BitVec 64}
    (h : (X64.Operand.reg q, off) ∈ savedRegs) :
    (exit r).reg q = readWord 8 r.mem (r.reg 5 + off) :=
  (exit_reg h4 h5).trans (X64.loadAll_reg (by decide) h)

theorem exit_unloaded {q : X64.Reg} (h4 : q ≠ 4) (h5 : q ≠ 5) (h11 : q ≠ 11)
    (h : X64.Operand.reg q ∉ savedRegs.map Prod.fst) :
    (exit r).reg q = r.reg q :=
  (exit_reg h4 h5).trans ((X64.loadAll_reg_of_notMem h).trans (State.writeReg_reg_of_ne r _ h11))

theorem exit_xmm {q : BitVec 4} {off : BitVec 64} (h : (X64.Operand.xmm q, off) ∈ savedRegs) :
    (exit r).xmm q = readWord 16 r.mem (r.reg 5 + off) := by
  show (X64.exec restoreCode r).xmm q = _
  rw [exec_restoreCode]
  exact X64.loadAll_xmm (by decide) h

theorem exec_leave_mem (t : X64.State) : (X64.exec [.leave] t).mem = t.mem := rfl

theorem exit_mem : (exit r).mem = r.mem := by
  show ((X64.exec restoreCode r).jumpReg 11).mem = r.mem
  rw [X64.jumpReg_mem, exec_restoreCode, exec_leave_mem, X64.loadAll_mem]
  rfl

theorem loadAll_basePointer :
    (registers.loadAll (r.reg 5) savedRegs (hookMoved r)).reg 5 = r.reg 5 :=
  (X64.loadAll_reg_of_notMem (by decide)).trans (State.writeReg_reg_of_ne r _ (by decide))

/-- `leave` finds the stack pointer in `rbp`, whatever it was aligned to. -/
theorem exit_sp : (exit r).sp = r.reg 5 + 8 := by
  show (X64.exec restoreCode r).reg 4 = r.reg 5 + 8
  rw [exec_restoreCode]
  show (registers.loadAll (r.reg 5) savedRegs (hookMoved r)).reg 5 + 8 = _
  rw [loadAll_basePointer]

theorem exit_rbp : (exit r).reg 5 = readWord 8 r.mem (r.reg 5) := by
  show (X64.exec restoreCode r).reg 5 = _
  rw [exec_restoreCode]
  show readWord 8 (registers.loadAll (r.reg 5) savedRegs (hookMoved r)).mem
    ((registers.loadAll (r.reg 5) savedRegs (hookMoved r)).reg 5) = _
  rw [loadAll_basePointer, X64.loadAll_mem]
  rfl

theorem exit_pc : (exit r).ip = r.reg 0 := by
  show (X64.exec restoreCode r).reg 11 = r.reg 0
  rw [exec_restoreCode, exec_leave _ (by decide) (by decide),
    X64.loadAll_reg_of_notMem (by decide)]
  exact State.writeReg_reg_self r 11 (r.reg 0)

end Exit

/-! ### The bridge forwards -/

section Forwards

variable {hookCaller next : Addr 64} {s : X64.State}

/-- An argument register is saved at its slot. -/
theorem intArgs_slot {i : ℕ} {f : X64.State → BitVec 64} {off : BitVec 64}
    (h : (bridge hookCaller next).intArgs[i]? = some f) (hoff : layout.ints[i]? = some off) :
    ∃ q : X64.Reg, f = (fun s => s.reg q) ∧ q ≠ 4 ∧ q ≠ 5 ∧
      (X64.Operand.reg q, off) ∈ savedRegs := by
  have hall : ∀ p ∈ intArgRegs.zipIdx, p.1 ≠ 4 ∧ p.1 ≠ 5 ∧
      (X64.Operand.reg p.1, intSlot p.2) ∈ savedRegs := by decide
  exact args_slot (S := fun q off => q ≠ 4 ∧ q ≠ 5 ∧ (X64.Operand.reg q, off) ∈ savedRegs)
    hall h hoff

theorem fltArgs_slot {i : ℕ} {f : X64.State → BitVec 128} {off : BitVec 64}
    (h : (bridge hookCaller next).fltArgs[i]? = some f) (hoff : layout.flts[i]? = some off) :
    ∃ q : BitVec 4, f = (fun s => s.xmm q) ∧ (X64.Operand.xmm q, off) ∈ savedRegs := by
  have hall : ∀ p ∈ fltArgRegs.zipIdx, (X64.Operand.xmm p.1, fltSlot p.2) ∈ savedRegs := by decide
  exact args_slot (S := fun q off => (X64.Operand.xmm q, off) ∈ savedRegs) hall h hoff

theorem enter_cell {o : X64.Operand} {off : BitVec 64} (h : (o, off) ∈ savedRegs) :
    readWord o.size (enter hookCaller next s).mem (basePointer s + off) = s.value o :=
  readWord_enter (List.mem_cons_of_mem _ (List.mem_map_of_mem (f := registers.cell s) h))

/-- `rax` and `r10` are saved with the arguments, outside the slots. -/
theorem saved_reg {q : X64.Reg} {off : BitVec 64} (h4 : q ≠ 4) (h5 : q ≠ 5)
    (h : (X64.Operand.reg q, off) ∈ savedRegs) (hslot : layout.NoSlot (off, 8)) :
    (bridge hookCaller next).Saved layout basePointer (fun r => r.reg 5) (fun s => s.reg q) := by
  refine ⟨off, hslot, fun s => ?_, fun r => ?_⟩
  · show readWord 8 (enter hookCaller next s).mem (basePointer s + off) = s.reg q
    exact enter_cell h
  · show (exit r).reg q = readWord 8 r.mem (r.reg 5 + off)
    exact exit_loaded h4 h5 h

/-- `rbp` is pushed and comes back with `leave`. -/
theorem saved_basePointer :
    (bridge hookCaller next).Saved layout basePointer (fun r => r.reg 5) (fun s => s.reg 5) := by
  refine ⟨0, layout_noSlot (0, 8) (by decide), fun s => ?_, fun r => ?_⟩
  · show readWord 8 (enter hookCaller next s).mem (basePointer s + 0) = s.reg 5
    exact readWord_enter (c := ⟨0, 8, s.reg 5⟩) List.mem_cons_self
  · show (exit r).reg 5 = readWord 8 r.mem (r.reg 5 + 0)
    rw [exit_rbp, show r.reg 5 + 0 = r.reg 5 from BitVec.add_zero (r.reg 5)]

theorem saved_returnAddr : (bridge hookCaller next).Saved layout basePointer (fun r => r.reg 5)
    (bridge hookCaller next).returnAddr := by
  refine ⟨8, layout_noSlot (8, 8) (by decide), fun s => ?_, fun r => ?_⟩
  · have habove : readWord 8 (enter hookCaller next s).mem
        (basePointer s - 0xc0 + BitVec.ofNat 64 0xc8) = _ :=
      readWord_enter_above (Nat.le_refl _) (by decide)
    have hsp : basePointer s - 0xc0 + BitVec.ofNat 64 0xc8 = basePointer s + 8 := by grind
    rw [hsp, show basePointer s + 8 = s.sp from BitVec.sub_add_cancel s.sp 8] at habove
    rw [show basePointer s + 8 = s.sp from BitVec.sub_add_cancel s.sp 8]
    exact habove
  · show readWord 8 (exit r).mem (exit r).sp = _
    rw [exit_mem, exit_sp]
    rfl

/-- The other registers that a function keeps are in no instruction of the bridge. -/
theorem untouched_reg {q : X64.Reg} (hq : q ∈ calleeSavedRegs) (h5 : q ≠ 5) :
    (bridge hookCaller next).Untouched fun s => s.reg q := by
  have hne : q ≠ 4 ∧ q ≠ 6 ∧ q ≠ 7 ∧ q ≠ 11 ∧ X64.Operand.reg q ∉ savedRegs.map Prod.fst := by
    revert q
    decide
  obtain ⟨h4, h6, h7, h11, hnot⟩ := hne
  constructor
  · intro s
    show (enter hookCaller next s).reg q = s.reg q
    rw [enter_reg h4]
    exact exec_saveCode_reg h4 h5 h6 h7
  · intro r
    exact exit_unloaded h4 h5 h11 hnot

/-- **The frame of the System V bridge.** `rbp` is its base, whatever `rsp` was aligned to. -/
theorem bridge_framed (hookCaller next : Addr 64) :
    (bridge hookCaller next).Framed layout basePointer fun r => r.reg 5 where
  laidOut := bridge_laidOut hookCaller next
  transit := by
    intro s
    show (enter hookCaller next s).reg 7 = s.reg 11
    rw [enter_reg (by decide)]
    exact exec_saveCode_args.1
  secondArg := by
    intro s
    show (enter hookCaller next s).reg 6 = basePointer s
    rw [enter_reg (by decide)]
    exact exec_saveCode_args.2.1
  start := by
    intro s
    show s.sp - 8 - 0xc0 = s.sp - BitVec.ofNat 64 0xc8
    grind
  intSaved := by
    intro s i f off hf hoff
    obtain ⟨q, rfl, -, -, hmem⟩ := intArgs_slot hf hoff
    show readWord 8 (enter hookCaller next s).mem (basePointer s + off) = s.reg q
    exact enter_cell hmem
  fltSaved := by
    intro s i f off hf hoff
    obtain ⟨q, rfl, hmem⟩ := fltArgs_slot hf hoff
    show readWord 16 (enter hookCaller next s).mem (basePointer s + off) = s.xmm q
    exact enter_cell hmem
  stackKept := by
    intro s n hn
    have hk : 0xc8 ≤ layout.size + 8 * n := Nat.le_trans (by decide) (Nat.le_add_right _ _)
    have hle : layout.size + 8 * n ≤ 2 ^ 35 := by
      show 0xd0 + 8 * n ≤ 2 ^ 35
      omega
    show readWord 8 (enter hookCaller next s).mem (basePointer s - 0xc0 + _) = _
    exact readWord_enter_above hk hle
  backEq := by
    intro s r hsaved hsp
    have hmem : (fun t : X64.State => t.reg 5) ∈ (bridge hookCaller next).calleeSaved :=
      List.mem_map_of_mem (f := fun q (t : X64.State) => t.reg q)
        (show (5 : X64.Reg) ∈ calleeSavedRegs by decide)
    rw [show r.reg 5 = (enter hookCaller next s).reg 5 from hsaved _ hmem,
      enter_reg (by decide)]
    exact exec_saveCode_args.2.2.1
  intLoaded := by
    intro r i f off hf hoff
    obtain ⟨q, rfl, h4, h5, hmem⟩ := intArgs_slot hf hoff
    show (exit r).reg q = readWord 8 r.mem (r.reg 5 + off)
    exact exit_loaded h4 h5 hmem
  fltLoaded := by
    intro r i f off hf hoff
    obtain ⟨q, rfl, hmem⟩ := fltArgs_slot hf hoff
    show (exit r).xmm q = readWord 16 r.mem (r.reg 5 + off)
    exact exit_xmm hmem
  exitMem := by
    intro r
    rw [bridge_mem, bridge_exit]
    exact exit_mem
  exitSp := by
    intro r
    show (exit r).sp = r.reg 5 - 0xc0 + BitVec.ofNat 64 0xc8
    rw [exit_sp]
    grind
  exitPc := by
    intro r
    show (exit r).ip = r.reg 0
    exact exit_pc
  returnAddr := saved_returnAddr
  calleeSaved := by
    intro f hf
    obtain ⟨q, hq, rfl⟩ := List.mem_map.mp (show f ∈ calleeSavedRegs.map
      fun q (t : X64.State) => t.reg q from hf)
    by_cases h5 : q = 5
    · subst h5
      exact Or.inl saved_basePointer
    · exact Or.inr (untouched_reg hq h5)
  kept := by
    intro f hf
    rcases List.mem_pair.mp hf with rfl | rfl
    · exact saved_reg (by decide) (by decide) (by decide) (layout_noSlot (-0x90, 8) (by decide))
    · exact saved_reg (by decide) (by decide) (by decide) (layout_noSlot (-0x88, 8) (by decide))

end Forwards

/-! ### A prehook that edits the first argument -/

section Edited

variable {P : Platform 64} {fh : FunchookT 64}
  {callback : Addr 64 → FunchookInfo 64 → FunchookInfo 64} {call : HookCall 64}

/-- The state behind a call that `t` is in front of, and whose prehook stores `value` in the slot of
the first argument. -/
def edited (call : HookCall 64) (value : BitVec 64) (t : X64.State) : X64.State where
  reg := fun q => if q = 0 then call.result else if q = 4 then t.sp + 8 else t.reg q
  xmm := fun _ => 0
  mem := write t.mem (funchookArgGetIntRegAddr call.info.argHandle 0) (leBytes 8 value)
  ip := readWord 8 t.mem t.sp

theorem edited_reg {t : X64.State} {value : BitVec 64} (q : X64.Reg) :
    (edited call value t).reg q =
      if q = 0 then call.result else if q = 4 then t.sp + 8 else t.reg q := rfl

theorem edited_returns {hookCaller next : Addr 64} {s : X64.State} {value : BitVec 64}
    (h : funchookHookCaller P fh callback (s.reg 11) (basePointer s) = some call) :
    (bridge hookCaller next).Returns P fh callback s
      (edited call value (enter hookCaller next s)) call := by
  constructor
  case called =>
    rw [(bridge_framed hookCaller next).transit, (bridge_framed hookCaller next).secondArg]
    exact h
  case result =>
    show (edited call value (enter hookCaller next s)).reg 0 = call.result
    rw [edited_reg, if_pos rfl]
  case pc => rfl
  case sp => rfl
  case calleeSaved =>
    intro f hf
    obtain ⟨q, hq, rfl⟩ := List.mem_map.mp (show f ∈ calleeSavedRegs.map
      fun q (t : X64.State) => t.reg q from hf)
    have hall : ∀ q ∈ calleeSavedRegs, q ≠ 0 ∧ q ≠ 4 := by decide
    show (edited call value (enter hookCaller next s)).reg q = (enter hookCaller next s).reg q
    rw [edited_reg, if_neg (hall q hq).1, if_neg (hall q hq).2]
  case mem =>
    intro a _ hslot
    apply write_of_not_inRange
    rw [leBytes_length]
    exact fun hin => hslot (Or.inl ⟨0, Nat.succ_pos 5, hin⟩)

end Edited

end SysV

end Funchook
