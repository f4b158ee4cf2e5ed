import Funchook.HandleRun
import Funchook.Lib.A64Frame
import Funchook.PrehookX86

/-!
# The bridge of AArch64 (`prehook-arm64-gas.S`, `arch_arm64.c`)

The frame record is at the bottom of the frame, so the frame pointer is the base of the frame and
the argument registers are at positive offsets. The return address is in the link register, and the
stack arguments follow the frame.
-/

namespace Funchook

open ByteMemory Frame

namespace Aapcs64

open A64

def funchookArgGetIntRegAddr (argHandle : FunchookArgHandle 64) (pos : BitVec 32) : Addr 64 :=
  element (element argHandle.basePointer 2) (pos.signExtend 64)

def funchookArgGetFltRegAddr (argHandle : FunchookArgHandle 64) (pos : BitVec 32) : Addr 64 :=
  element (element argHandle.basePointer (2 + 10)) (2 * pos.signExtend 64)

def funchookArgGetStackAddr (argHandle : FunchookArgHandle 64) (pos : BitVec 32) : Addr 64 :=
  element (element argHandle.basePointer (2 + 10 + 16)) (pos.signExtend 64)

/-- `funchook_hook_caller_asm` up to the call. -/
def saveCode : List FrameInstr := [
  .stpPre ⟨.x 29, .x 30, -0xe0⟩,
  .movSp 29,
  -- integer or pointer arguments
  .stp ⟨.x 0, .x 1, 0x10⟩,
  .stp ⟨.x 2, .x 3, 0x20⟩,
  .stp ⟨.x 4, .x 5, 0x30⟩,
  .stp ⟨.x 6, .x 7, 0x40⟩,
  -- the address of an indirect return value and the platform register
  .stp ⟨.x 8, .x 18, 0x50⟩,
  .stp ⟨.q 0, .q 1, 0x60⟩,
  .stp ⟨.q 2, .q 3, 0x80⟩,
  .stp ⟨.q 4, .q 5, 0xa0⟩,
  .stp ⟨.q 6, .q 7, 0xc0⟩,
  .mov 0 10,
  .mov 1 29]

/-- `funchook_hook_caller_asm` between the call and the jump to `hook_func`. -/
def restoreCode : List FrameInstr := [
  .mov 9 0,
  .ldp ⟨.x 0, .x 1, 0x10⟩,
  .ldp ⟨.x 2, .x 3, 0x20⟩,
  .ldp ⟨.x 4, .x 5, 0x30⟩,
  .ldp ⟨.x 6, .x 7, 0x40⟩,
  .ldp ⟨.x 8, .x 18, 0x50⟩,
  .ldp ⟨.q 0, .q 1, 0x60⟩,
  .ldp ⟨.q 2, .q 3, 0x80⟩,
  .ldp ⟨.q 4, .q 5, 0xa0⟩,
  .ldp ⟨.q 6, .q 7, 0xc0⟩,
  .ldpPost (.x 29) (.x 30) 0xe0]

/-- `x0` to `x7`, and `v0` to `v7`. -/
def argRegs : List A64.Reg := [0, 1, 2, 3, 4, 5, 6, 7]

/-- `x19` to `x28` and the frame pointer. -/
def calleeSavedRegs : List A64.Reg := [19, 20, 21, 22, 23, 24, 25, 26, 27, 28, 29]

/-- The vector registers whose lower half a function keeps. -/
def calleeSavedVRegs : List A64.Reg := [8, 9, 10, 11, 12, 13, 14, 15]

/-- From the entry of the bridge to that of `funchook_hook_caller`, which stands at `hookCaller`;
the instruction behind the call is at `next`. -/
def enter (hookCaller next : Addr 64) (s : A64.State) : A64.State :=
  (A64.exec saveCode s).branchLink hookCaller next

/-- From the return of `funchook_hook_caller` to `hook_func`. -/
def exit (s : A64.State) : A64.State := (A64.exec restoreCode s).branchReg 9

/-- The bridge of `prehook-arm64-gas.S`, where `funchook_hook_caller` stands at `hookCaller` and the
instruction behind its call at `next`. -/
def bridge (hookCaller next : Addr 64) : Bridge A64.State where
  mem := A64.State.mem
  pc := A64.State.pc
  sp := A64.State.sp
  intArgs := argRegs.map fun r s => s.x r
  fltArgs := argRegs.map fun r s => s.v r
  firstArg := fun s => s.x 0
  secondArg := fun s => s.x 1
  result := fun s => s.x 0
  calleeSaved := (calleeSavedRegs.map fun r s => s.x r) ++
    calleeSavedVRegs.map fun r s => (s.v r).setWidth 64
  kept := [fun s => s.x 8, fun s => s.x 18]
  returnAddr := fun s => s.x 30
  linkSize := 0
  transit := fun s => s.x 10
  frameSize := 0xe0
  getIntRegAddr := funchookArgGetIntRegAddr
  getFltRegAddr := funchookArgGetFltRegAddr
  getStackAddr := funchookArgGetStackAddr
  enter := enter hookCaller next
  exit := exit

theorem bridge_mem (hookCaller next : Addr 64) : (bridge hookCaller next).mem = A64.State.mem := rfl

theorem bridge_sp (hookCaller next : Addr 64) : (bridge hookCaller next).sp = A64.State.sp := rfl

theorem bridge_enter (hookCaller next : Addr 64) :
    (bridge hookCaller next).enter = enter hookCaller next := rfl

theorem bridge_exit (hookCaller next : Addr 64) : (bridge hookCaller next).exit = exit := rfl

/-! ### The frame -/

/-- The pairs that are saved and restored behind the frame record. -/
def savedPairs : List Pair := [
  ⟨.x 0, .x 1, 0x10⟩, ⟨.x 2, .x 3, 0x20⟩, ⟨.x 4, .x 5, 0x30⟩, ⟨.x 6, .x 7, 0x40⟩,
  ⟨.x 8, .x 18, 0x50⟩, ⟨.q 0, .q 1, 0x60⟩, ⟨.q 2, .q 3, 0x80⟩, ⟨.q 4, .q 5, 0xa0⟩,
  ⟨.q 6, .q 7, 0xc0⟩]

def savedRegs : List (A64.Operand × BitVec 64) := savedPairs.flatMap Pair.transfers

theorem saveCode_eq : saveCode = [.stpPre ⟨.x 29, .x 30, -0xe0⟩, .movSp 29] ++
    (savedPairs.map .stp ++ [.mov 0 10, .mov 1 29]) := rfl

theorem restoreCode_eq : restoreCode = [.mov 9 0] ++
    (savedPairs.map .ldp ++ [.ldpPost (.x 29) (.x 30) 0xe0]) := rfl

/-- The cells of the frame: the frame record and the saved registers. -/
def cells (s : A64.State) : List (Cell 64) :=
  ⟨0, 8, s.x 29⟩ :: ⟨8, 8, s.x 30⟩ :: savedRegs.map (registers.cell s)

theorem cells_apart (s : A64.State) : ((cells s).map Cell.extent).Pairwise Apart := by
  show List.Pairwise Apart [((0 : BitVec 64), 8), (8, 8), (0x10, 8), (0x10 + 8, 8), (0x20, 8),
    (0x20 + 8, 8), (0x30, 8), (0x30 + 8, 8), (0x40, 8), (0x40 + 8, 8), (0x50, 8), (0x50 + 8, 8),
    (0x60, 16), (0x60 + 16, 16), (0x80, 16), (0x80 + 16, 16), (0xa0, 16), (0xa0 + 16, 16),
    (0xc0, 16), (0xc0 + 16, 16)]
  decide +kernel

theorem cells_within (s : A64.State) :
    ∀ e ∈ (cells s).map Cell.extent, Within 0 0xe0 e ∧ e.2 ≤ 2 ^ 64 := by
  show ∀ e ∈ [((0 : BitVec 64), 8), (8, 8), (0x10, 8), (0x10 + 8, 8), (0x20, 8),
    (0x20 + 8, 8), (0x30, 8), (0x30 + 8, 8), (0x40, 8), (0x40 + 8, 8), (0x50, 8), (0x50 + 8, 8),
    (0x60, 16), (0x60 + 16, 16), (0x80, 16), (0x80 + 16, 16), (0xa0, 16), (0xa0 + 16, 16),
    (0xc0, 16), (0xc0 + 16, 16)], _
  decide +kernel

/-- The frame pointer. -/
def framePointer (s : A64.State) : Addr 64 := s.sp + -0xe0

section Enter

variable {hookCaller next : Addr 64} {s : A64.State}

/-- The state behind the frame record. -/
def pushed (s : A64.State) : A64.State :=
  A64.exec [.stpPre ⟨.x 29, .x 30, -0xe0⟩, .movSp 29] s

theorem pushed_eq : pushed s = { s with
    x := fun q => if q = 29 then framePointer s else s.x q
    sp := framePointer s
    mem := write (write s.mem (s.sp + -0xe0) (leBytes 8 (s.x 29)))
      (s.sp + (-0xe0 + 8)) (leBytes 8 (s.x 30)) } := by
  show FrameInstr.effect (FrameInstr.effect s (.stpPre ⟨.x 29, .x 30, -0xe0⟩)) (.movSp 29) = _
  rw [effect_stpPre]
  rfl

theorem exec_saveCode : A64.exec saveCode s = A64.exec [.mov 0 10, .mov 1 29]
    (registers.storeAll (framePointer s) savedRegs (pushed s)) := by
  rw [saveCode_eq, A64.exec_append, A64.exec_append]
  exact congrArg _ exec_stps

theorem pushed_cells : savedRegs.map (registers.cell (pushed s)) =
    savedRegs.map (registers.cell s) := by
  apply List.map_congr_left
  intro t ht
  have hne : t.1 ≠ .x 29 := by
    revert t
    decide
  obtain ⟨o, off⟩ := t
  cases o with
  | x r =>
    have hreg : (pushed s).x r = s.x r := if_neg fun h => hne (congrArg A64.Operand.x h)
    show (⟨off, 8, (pushed s).x r⟩ : Cell 64) = ⟨off, 8, s.x r⟩
    rw [hreg]
  | q r => rfl

theorem exec_arguments (t : A64.State) : A64.exec [.mov 0 10, .mov 1 29] t =
    { t with x := fun q => if q = 1 then t.x 29 else if q = 0 then t.x 10 else t.x q } := rfl

/-- The memory in front of the call. -/
theorem exec_saveCode_mem :
    (A64.exec saveCode s).mem = save (framePointer s) (cells s) s.mem := by
  have hfirst : (⟨0, 8, s.x 29⟩ : Cell 64).patch (framePointer s) =
      ⟨s.sp + -0xe0, leBytes 8 (s.x 29)⟩ :=
    congrArg (fun a => (⟨a, leBytes 8 (s.x 29)⟩ : Patch 64)) (BitVec.add_zero (s.sp + -0xe0))
  have hsecond : (⟨8, 8, s.x 30⟩ : Cell 64).patch (framePointer s) =
      ⟨s.sp + (-0xe0 + 8), leBytes 8 (s.x 30)⟩ :=
    congrArg (fun a => (⟨a, leBytes 8 (s.x 30)⟩ : Patch 64)) (BitVec.add_assoc s.sp (-0xe0) 8)
  rw [exec_saveCode, exec_arguments]
  show (registers.storeAll (framePointer s) savedRegs (pushed s)).mem = _
  rw [A64.storeAll_mem, pushed_cells, cells, save, save, List.map_cons, List.map_cons, writeAll,
    writeAll, hfirst, hsecond]
  rfl

theorem exec_saveCode_x {q : A64.Reg} (h0 : q ≠ 0) (h1 : q ≠ 1) (h29 : q ≠ 29) :
    (A64.exec saveCode s).x q = s.x q := by
  rw [exec_saveCode, exec_arguments]
  dsimp only
  rw [if_neg h1, if_neg h0, A64.storeAll_x, pushed_eq]
  exact if_neg h29

/-- The arguments of `funchook_hook_caller`, the frame pointer and the stack pointer. -/
theorem exec_saveCode_args : (A64.exec saveCode s).x 0 = s.x 10 ∧
    (A64.exec saveCode s).x 1 = framePointer s ∧ (A64.exec saveCode s).x 29 = framePointer s ∧
      (A64.exec saveCode s).sp = framePointer s := by
  rw [exec_saveCode, exec_arguments]
  dsimp only
  rw [A64.storeAll_x, A64.storeAll_x, A64.storeAll_sp, pushed_eq]
  exact ⟨rfl, rfl, rfl, rfl⟩

theorem exec_saveCode_v (q : A64.Reg) : (A64.exec saveCode s).v q = s.v q := by
  rw [exec_saveCode, exec_arguments]
  show (registers.storeAll (framePointer s) savedRegs (pushed s)).v q = s.v q
  rw [A64.storeAll_v, pushed_eq]

theorem enter_x {q : A64.Reg} (hq : q ≠ 30) :
    (enter hookCaller next s).x q = (A64.exec saveCode s).x q :=
  A64.branchLink_x hq

theorem enter_sp : (enter hookCaller next s).sp = framePointer s := by
  rw [enter, A64.branchLink_sp]
  exact exec_saveCode_args.2.2.2

theorem enter_mem : (enter hookCaller next s).mem = save (framePointer s) (cells s) s.mem := by
  rw [enter, A64.branchLink_mem, exec_saveCode_mem]

/-- Every saved value is in its cell when `funchook_hook_caller` is entered. -/
theorem readWord_enter {c : Cell 64} (hc : c ∈ cells s) :
    readWord c.size (enter hookCaller next s).mem (framePointer s + c.offset) = c.value := by
  rw [enter_mem]
  apply readWord_save (cells_apart s) hc
  intro d hd
  exact (cells_within s d.extent (List.mem_map_of_mem hd)).2

theorem enter_cell {o : A64.Operand} {off : BitVec 64} (h : (o, off) ∈ savedRegs) :
    readWord o.size (enter hookCaller next s).mem (framePointer s + off) = s.value o :=
  readWord_enter (List.mem_cons_of_mem _ (List.mem_cons_of_mem _
    (List.mem_map_of_mem (f := registers.cell s) h)))

/-- The memory above the frame is as at the entry. -/
theorem readWord_enter_above {k : ℕ} (hk : 0xe0 ≤ k) (hle : k ≤ 2 ^ 35) :
    readWord 8 (enter hookCaller next s).mem (framePointer s - 0 + BitVec.ofNat 64 k) =
      readWord 8 s.mem (framePointer s - 0 + BitVec.ofNat 64 k) := by
  apply readWord_congr (by decide)
  intro a ha
  rw [enter_mem]
  apply save_frame
  intro c hc hcell
  exact (cells_within s c.extent (List.mem_map_of_mem hc)).1.disjoint_above hk (by omega)
    (framePointer s) a hcell ha

end Enter

/-! ### The way back -/

section Exit

variable {r : A64.State}

/-- The address of the hook, in `x9` while the registers are restored. -/
def hookMoved (r : A64.State) : A64.State := A64.exec [.mov 9 0] r

theorem hookMoved_x (q : A64.Reg) : (hookMoved r).x q = if q = 9 then r.x 0 else r.x q := rfl

/-- The state in front of the pop of the frame record. -/
def restored (r : A64.State) : A64.State := registers.loadAll r.sp savedRegs (hookMoved r)

theorem exec_restoreCode : A64.exec restoreCode r =
    FrameInstr.effect (restored r) (.ldpPost (.x 29) (.x 30) 0xe0) := by
  have hlast : ∀ t, A64.exec [.ldpPost (.x 29) (.x 30) 0xe0] t =
      FrameInstr.effect t (.ldpPost (.x 29) (.x 30) 0xe0) := fun _ => rfl
  have hsp : (hookMoved r).sp = r.sp := rfl
  rw [restoreCode_eq, A64.exec_append, A64.exec_append, ← hookMoved, exec_ldps, hsp, hlast,
    ← savedRegs, ← restored]

theorem restored_sp : (restored r).sp = r.sp := A64.loadAll_sp

theorem restored_mem : (restored r).mem = r.mem := A64.loadAll_mem

/-- The state behind the pop of the frame record. -/
theorem exec_restoreCode_eq : A64.exec restoreCode r = { restored r with
    sp := r.sp + 0xe0
    x := fun q => if q = 30 then readWord 8 r.mem (r.sp + 8) else
      if q = 29 then readWord 8 r.mem r.sp else (restored r).x q
    mem := r.mem } := by
  rw [exec_restoreCode, effect_ldpPost, restored_sp, restored_mem]

theorem exit_x {q : A64.Reg} (h29 : q ≠ 29) (h30 : q ≠ 30) : (exit r).x q = (restored r).x q := by
  rw [exit, A64.branchReg_x, exec_restoreCode_eq]
  dsimp only
  rw [if_neg h30, if_neg h29]

theorem exit_loaded {q : A64.Reg} (h29 : q ≠ 29) (h30 : q ≠ 30) {off : BitVec 64}
    (h : (A64.Operand.x q, off) ∈ savedRegs) :
    (exit r).x q = readWord 8 r.mem (r.sp + off) :=
  (exit_x h29 h30).trans (A64.loadAll_x (by decide) h)

theorem exit_unloaded {q : A64.Reg} (h29 : q ≠ 29) (h30 : q ≠ 30) (h9 : q ≠ 9)
    (h : A64.Operand.x q ∉ savedRegs.map Prod.fst) : (exit r).x q = r.x q :=
  (exit_x h29 h30).trans ((A64.loadAll_x_of_notMem h).trans ((hookMoved_x q).trans (if_neg h9)))

theorem exit_v : (exit r).v = (restored r).v := by
  rw [exit, A64.branchReg_v, exec_restoreCode_eq]

theorem exit_vLoaded {q : A64.Reg} {off : BitVec 64} (h : (A64.Operand.q q, off) ∈ savedRegs) :
    (exit r).v q = readWord 16 r.mem (r.sp + off) := by
  rw [exit_v]
  exact A64.loadAll_v (by decide) h

theorem exit_vUnloaded {q : A64.Reg} (h : A64.Operand.q q ∉ savedRegs.map Prod.fst) :
    (exit r).v q = r.v q := by
  rw [exit_v]
  exact A64.loadAll_v_of_notMem h

theorem exit_frameRecord : (exit r).x 29 = readWord 8 r.mem r.sp ∧
    (exit r).x 30 = readWord 8 r.mem (r.sp + 8) := by
  rw [exit, A64.branchReg_x, exec_restoreCode_eq]
  exact ⟨rfl, rfl⟩

theorem exit_mem : (exit r).mem = r.mem := by
  rw [exit, A64.branchReg_mem, exec_restoreCode_eq]

theorem exit_sp : (exit r).sp = r.sp + 0xe0 := by
  rw [exit, A64.branchReg_sp, exec_restoreCode_eq]

theorem exit_pc : (exit r).pc = r.x 0 := by
  rw [exit, A64.branchReg_pc, exec_restoreCode_eq]
  dsimp only
  rw [if_neg (by decide), if_neg (by decide), restored, A64.loadAll_x_of_notMem (by decide),
    hookMoved_x, if_pos rfl]

end Exit

/-! ### Slots -/

/-- The offset of a position from the base pointer. -/
def intSlot (i : ℕ) : BitVec 64 := 8 * 2 + 8 * (BitVec.ofNat 32 i).signExtend 64

def fltSlot (i : ℕ) : BitVec 64 := 8 * (2 + 10) + 8 * (2 * (BitVec.ofNat 32 i).signExtend 64)

def layout : SlotLayout where
  start := 0
  size := 0xe0
  size_le := by decide
  ints := (List.range 8).map intSlot
  flts := (List.range 8).map fltSlot

theorem bridge_laidOut (hookCaller next : Addr 64) : (bridge hookCaller next).LaidOut layout where
  int_length := rfl
  flt_length := rfl
  int := by
    intro handle i off h
    rw [getElem?_map_range h]
    exact element_element _ _ _
  flt := by
    intro handle i off h
    rw [getElem?_map_range h]
    exact element_element _ _ _
  stack := by
    intro handle pos hpos
    have hoff : BitVec.ofNat 64 (0xe0 + 8 * pos.toNat) = 0xe0 + 8 * BitVec.ofNat 64 pos.toNat := by
      rw [BitVec.ofNat_add, BitVec.ofNat_mul]
      rfl
    show funchookArgGetStackAddr handle pos = handle.basePointer - 0 + BitVec.ofNat 64 (0xe0 + _)
    rw [funchookArgGetStackAddr, element_element, (signExtend_of_nonneg hpos).1, hoff]
    grind
  size := rfl

/-- The frame record, `x8` and `x18`. -/
theorem layout_noSlot : ∀ e ∈ [((0 : BitVec 64), 8), (8, 8), (0x50, 8), (0x50 + 8, 8)],
    layout.NoSlot e := by
  decide +kernel

/-! ### The bridge forwards -/

section Forwards

variable {hookCaller next : Addr 64} {s : A64.State}

/-- An argument register is saved at its slot. -/
theorem intArgs_slot {i : ℕ} {f : A64.State → BitVec 64} {off : BitVec 64}
    (h : (bridge hookCaller next).intArgs[i]? = some f) (hoff : layout.ints[i]? = some off) :
    ∃ q : A64.Reg, f = (fun s => s.x q) ∧ q ≠ 29 ∧ q ≠ 30 ∧
      (A64.Operand.x q, off) ∈ savedRegs := by
  have hall : ∀ p ∈ argRegs.zipIdx, p.1 ≠ 29 ∧ p.1 ≠ 30 ∧
      (A64.Operand.x p.1, intSlot p.2) ∈ savedRegs := by decide
  exact args_slot (S := fun q off => q ≠ 29 ∧ q ≠ 30 ∧ (A64.Operand.x q, off) ∈ savedRegs)
    hall h hoff

theorem fltArgs_slot {i : ℕ} {f : A64.State → BitVec 128} {off : BitVec 64}
    (h : (bridge hookCaller next).fltArgs[i]? = some f) (hoff : layout.flts[i]? = some off) :
    ∃ q : A64.Reg, f = (fun s => s.v q) ∧ (A64.Operand.q q, off) ∈ savedRegs := by
  have hall : ∀ p ∈ argRegs.zipIdx, (A64.Operand.q p.1, fltSlot p.2) ∈ savedRegs := by decide
  exact args_slot (S := fun q off => (A64.Operand.q q, off) ∈ savedRegs) hall h hoff

/-- `x8` and `x18` are saved with the arguments, outside the slots. -/
theorem saved_reg {q : A64.Reg} {off : BitVec 64} (h29 : q ≠ 29) (h30 : q ≠ 30)
    (h : (A64.Operand.x q, off) ∈ savedRegs) (hslot : layout.NoSlot (off, 8)) :
    (bridge hookCaller next).Saved layout framePointer A64.State.sp (fun s => s.x q) := by
  refine ⟨off, hslot, fun s => ?_, fun r => ?_⟩
  · rw [bridge_mem, bridge_enter]
    exact enter_cell h
  · show (exit r).x q = readWord 8 r.mem (r.sp + off)
    exact exit_loaded h29 h30 h

theorem saved_framePointer : (bridge hookCaller next).Saved layout framePointer A64.State.sp
    (fun s => s.x 29) := by
  refine ⟨0, layout_noSlot (0, 8) (by decide), fun s => ?_, fun r => ?_⟩
  · rw [bridge_mem, bridge_enter]
    exact readWord_enter (c := ⟨0, 8, s.x 29⟩) List.mem_cons_self
  · show (exit r).x 29 = readWord 8 r.mem (r.sp + 0)
    rw [exit_frameRecord.1, show r.sp + 0 = r.sp from BitVec.add_zero r.sp]

theorem saved_linkRegister : (bridge hookCaller next).Saved layout framePointer A64.State.sp
    (fun s => s.x 30) := by
  refine ⟨8, layout_noSlot (8, 8) (by decide), fun s => ?_, fun r => ?_⟩
  · rw [bridge_mem, bridge_enter]
    exact readWord_enter (c := ⟨8, 8, s.x 30⟩) (List.mem_cons_of_mem _ List.mem_cons_self)
  · show (exit r).x 30 = readWord 8 r.mem (r.sp + 8)
    exact exit_frameRecord.2

/-- The other registers that a function keeps are in no instruction of the bridge. -/
theorem untouched_x {q : A64.Reg} (hq : q ∈ calleeSavedRegs) (h29 : q ≠ 29) :
    (bridge hookCaller next).Untouched fun s => s.x q := by
  have hne : q ≠ 0 ∧ q ≠ 1 ∧ q ≠ 9 ∧ q ≠ 30 ∧ A64.Operand.x q ∉ savedRegs.map Prod.fst := by
    revert q
    decide
  obtain ⟨h0, h1, h9, h30, hnot⟩ := hne
  constructor
  · intro s
    show (enter hookCaller next s).x q = s.x q
    rw [enter_x h30]
    exact exec_saveCode_x h0 h1 h29
  · intro r
    show (exit r).x q = r.x q
    exact exit_unloaded h29 h30 h9 hnot

theorem untouched_v {q : A64.Reg} (hq : q ∈ calleeSavedVRegs) :
    (bridge hookCaller next).Untouched fun s => (s.v q).setWidth 64 := by
  have hnot : A64.Operand.q q ∉ savedRegs.map Prod.fst := by
    revert q
    decide
  constructor
  · intro s
    show ((enter hookCaller next s).v q).setWidth 64 = (s.v q).setWidth 64
    rw [enter, A64.branchLink_v, exec_saveCode_v]
  · intro r
    show ((exit r).v q).setWidth 64 = (r.v q).setWidth 64
    rw [exit_vUnloaded hnot]

/-- **The frame of the AArch64 bridge.** The stack pointer is its base. -/
theorem bridge_framed (hookCaller next : Addr 64) :
    (bridge hookCaller next).Framed layout framePointer A64.State.sp where
  laidOut := bridge_laidOut hookCaller next
  transit := by
    intro s
    show (enter hookCaller next s).x 0 = s.x 10
    rw [enter_x (by decide)]
    exact exec_saveCode_args.1
  secondArg := by
    intro s
    show (enter hookCaller next s).x 1 = framePointer s
    rw [enter_x (by decide)]
    exact exec_saveCode_args.2.1
  start := by
    intro s
    show s.sp + -0xe0 - 0 = s.sp - BitVec.ofNat 64 0xe0
    grind
  intSaved := by
    intro s i f off hf hoff
    obtain ⟨q, rfl, -, -, hmem⟩ := intArgs_slot hf hoff
    rw [bridge_mem, bridge_enter]
    exact enter_cell hmem
  fltSaved := by
    intro s i f off hf hoff
    obtain ⟨q, rfl, hmem⟩ := fltArgs_slot hf hoff
    rw [bridge_mem, bridge_enter]
    exact enter_cell hmem
  stackKept := by
    intro s n hn
    have hk : 0xe0 ≤ layout.size + 8 * n := Nat.le_add_right _ _
    have hle : layout.size + 8 * n ≤ 2 ^ 35 := by
      show 0xe0 + 8 * n ≤ 2 ^ 35
      omega
    rw [bridge_mem, bridge_enter]
    exact readWord_enter_above hk hle
  backEq := by
    intro s r hsaved hsp
    rw [bridge_enter, bridge_sp, enter_sp] at hsp
    exact hsp.trans (BitVec.add_zero (framePointer s))
  intLoaded := by
    intro r i f off hf hoff
    obtain ⟨q, rfl, h29, h30, hmem⟩ := intArgs_slot hf hoff
    show (exit r).x q = readWord 8 r.mem (r.sp + off)
    exact exit_loaded h29 h30 hmem
  fltLoaded := by
    intro r i f off hf hoff
    obtain ⟨q, rfl, hmem⟩ := fltArgs_slot hf hoff
    show (exit r).v q = readWord 16 r.mem (r.sp + off)
    exact exit_vLoaded hmem
  exitMem := by
    intro r
    rw [bridge_mem, bridge_exit]
    exact exit_mem
  exitSp := by
    intro r
    show (exit r).sp = r.sp - 0 + BitVec.ofNat 64 0xe0
    rw [exit_sp, show r.sp - 0 = r.sp from BitVec.sub_zero r.sp]
    rfl
  exitPc := by
    intro r
    show (exit r).pc = r.x 0
    exact exit_pc
  returnAddr := saved_linkRegister
  calleeSaved := by
    intro f hf
    rcases List.mem_append.mp hf with hf | hf
    · obtain ⟨q, hq, rfl⟩ := List.mem_map.mp hf
      by_cases h29 : q = 29
      · subst h29
        exact Or.inl saved_framePointer
      · exact Or.inr (untouched_x hq h29)
    · obtain ⟨q, hq, rfl⟩ := List.mem_map.mp hf
      exact Or.inr (untouched_v hq)
  kept := by
    intro f hf
    rcases List.mem_pair.mp hf with rfl | rfl
    · exact saved_reg (by decide) (by decide) (by decide) (layout_noSlot (0x50, 8) (by decide))
    · exact saved_reg (by decide) (by decide) (by decide) (layout_noSlot (0x50 + 8, 8) (by decide))

end Forwards

/-! ### A prehook that edits the first argument -/

section Edited

variable {P : Platform 64} {fh : FunchookT 64}
  {callback : Addr 64 → FunchookInfo 64 → FunchookInfo 64} {call : HookCall 64}

/-- The state behind a call that `t` is in front of, and whose prehook stores `value` in the slot of
the first argument. -/
def edited (call : HookCall 64) (value : BitVec 64) (t : A64.State) : A64.State :=
  { t with
    x := fun q => if q = 0 then call.result else t.x q
    mem := write t.mem (funchookArgGetIntRegAddr call.info.argHandle 0) (leBytes 8 value)
    pc := t.x 30 }

section State

variable {t : A64.State} {value : BitVec 64}

theorem edited_x (q : A64.Reg) :
    (edited call value t).x q = if q = 0 then call.result else t.x q := rfl

theorem edited_v : (edited call value t).v = t.v := rfl

theorem edited_sp : (edited call value t).sp = t.sp := rfl

theorem edited_mem : (edited call value t).mem =
    write t.mem (funchookArgGetIntRegAddr call.info.argHandle 0) (leBytes 8 value) := rfl

end State

theorem edited_returns {hookCaller next : Addr 64} {s : A64.State} {value : BitVec 64}
    (h : funchookHookCaller P fh callback (s.x 10) (framePointer s) = some call) :
    (bridge hookCaller next).Returns P fh callback s
      (edited call value (enter hookCaller next s)) call := by
  constructor
  case called =>
    rw [(bridge_framed hookCaller next).transit, (bridge_framed hookCaller next).secondArg]
    exact h
  case result =>
    show (edited call value (enter hookCaller next s)).x 0 = call.result
    rw [edited_x, if_pos rfl]
  case pc => rfl
  case sp =>
    rw [bridge_sp, bridge_enter, edited_sp]
    exact (BitVec.add_zero (enter hookCaller next s).sp).symm
  case calleeSaved =>
    intro f hf
    rcases List.mem_append.mp hf with hf | hf
    · obtain ⟨q, hq, rfl⟩ := List.mem_map.mp hf
      have hall : ∀ q ∈ calleeSavedRegs, q ≠ 0 := by decide
      show (edited call value (enter hookCaller next s)).x q = (enter hookCaller next s).x q
      rw [edited_x, if_neg (hall q hq)]
    · obtain ⟨q, -, rfl⟩ := List.mem_map.mp hf
      show ((edited call value (enter hookCaller next s)).v q).setWidth 64 = _
      rw [edited_v]
      rfl
  case mem =>
    intro a _ hslot
    rw [bridge_mem, bridge_enter, edited_mem]
    apply write_of_not_inRange
    rw [leBytes_length]
    exact fun hin => hslot (Or.inl ⟨0, Nat.succ_pos 7, hin⟩)

end Edited

end Aapcs64

/-! ## Both bridges -/

/-- **The bridges forward the arguments and honour edits.** On either machine, whatever registers,
stack and alignment the target is entered with: when `funchook_hook_caller` and the prehook keep to
the calling convention and write in the frame to slots only, the hook gets what is in the slots, on
the stack and with the callee-saved registers of the target, at the address that
`funchook_hook_caller` returned. -/
theorem bridges_forward (hookCaller next : Addr 64) (P : Platform 64) (fh : FunchookT 64)
    (callback : Addr 64 → FunchookInfo 64 → FunchookInfo 64) (call : HookCall 64) :
    (∀ entry returned,
      (SysV.bridge hookCaller next).Returns P fh callback entry returned call →
        (SysV.bridge hookCaller next).Forwarded entry returned call) ∧
    ∀ entry returned,
      (Aapcs64.bridge hookCaller next).Returns P fh callback entry returned call →
        (Aapcs64.bridge hookCaller next).Forwarded entry returned call := by
  constructor
  · intro entry returned hreturns
    exact (SysV.bridge_framed hookCaller next).forwards hreturns
  · intro entry returned hreturns
    exact (Aapcs64.bridge_framed hookCaller next).forwards hreturns

/-- The slot of the sample handle's entry. -/
def sampleSlot : Addr 64 := samplePlatform.slotAddr 0x500000 0

/-- The prehook keeps the hook that it is given. -/
def sampleCall : HookCall 64 :=
  (funchookHookCaller samplePlatform sampleHandle.fh (fun _ info => info) sampleSlot
    0x7ffe00001000).get (by decide +kernel)

/-- Entries of a hooked function. The stack pointer on x86-64 is not aligned for a call. -/
def sampleEntryX64 : X64.State where
  reg := fun q => if q = 4 then 0x7ffe00001008 else if q = 11 then sampleSlot else 7
  xmm := fun _ => 5
  mem := fun _ => 0
  ip := 0x500000

def sampleEntryA64 : A64.State :=
  { A64.State.initial (fun _ => 0) 0x500000 with
    sp := 0x7ffe000010e0
    x := fun q => if q = 10 then sampleSlot else 7 }

theorem bridges_forward_edited :
    (SysV.bridge 0x402000 0x403000).Forwarded sampleEntryX64
      (SysV.edited sampleCall 42 (SysV.enter 0x402000 0x403000 sampleEntryX64)) sampleCall ∧
    (Aapcs64.bridge 0x402000 0x403000).Forwarded sampleEntryA64
      (Aapcs64.edited sampleCall 42 (Aapcs64.enter 0x402000 0x403000 sampleEntryA64))
      sampleCall := by
  have hcall : funchookHookCaller samplePlatform sampleHandle.fh (fun _ info => info) sampleSlot
      0x7ffe00001000 = some sampleCall := (Option.some_get _).symm
  have h := bridges_forward 0x402000 0x403000 samplePlatform sampleHandle.fh (fun _ info => info)
    sampleCall
  exact ⟨h.1 _ _ (SysV.edited_returns hcall), h.2 _ _ (Aapcs64.edited_returns hcall)⟩

end Funchook
