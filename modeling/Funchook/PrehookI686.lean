import Funchook.DispatchX86
import Funchook.Lib.Blocks
import Funchook.Lib.Frame
import Funchook.Lib.Ia32Stack

/-!
# The bridge of 32-bit x86 (`prehook-i686-gas.S`, `prehook-i686-ms.asm`, `arch_x86.c`)

All arguments are on the stack, but for `ecx` and `edx` of `fastcall`. There is a bridge for each
assembler. The one for `gas` aligns the stack pointer and restores the registers from the frame; the
one for `ms` does not align it and pops them.
-/

namespace Funchook.I686

open ByteMemory Frame
open Ia32 (State Reg)
open Ia32.Stack (Instr exec)

/-- The assembler that a bridge is written for. -/
inductive Assembler where
  | gas
  | ms
  deriving DecidableEq, Repr

/-! ## The accessors -/

/-- The address `n` elements behind a `const size_t *`. -/
def element (p : Addr 32) (n : BitVec 32) : Addr 32 := p + 4 * n

def funchookArgGetIntRegAddr (argHandle : FunchookArgHandle 32) (pos : BitVec 32) : Addr 32 :=
  element (element argHandle.basePointer (-2)) pos

def funchookArgGetFltRegAddr (_argHandle : FunchookArgHandle 32) (_pos : BitVec 32) : Addr 32 := 0

def funchookArgGetStackAddr (argHandle : FunchookArgHandle 32) (pos : BitVec 32) : Addr 32 :=
  element (element argHandle.basePointer 2) pos

/-! ## The code -/

/-- `funchook_hook_caller_asm` up to the call. -/
def saveCode : Assembler → List Instr
  | .gas => [.endbr32, .push 5, .mov 4 5, .push 2, .push 1, .and 0xfffffff0 4, .sub 8 4, .push 5,
      .push 0]
  | .ms => [.push 5, .mov 4 5, .push 2, .push 1, .push 5, .push 0]

/-- `funchook_hook_caller_asm` between the call and the jump to `hook_func`. -/
def restoreCode : Assembler → List Instr
  | .gas => [.load (-8) 5 1, .load (-4) 5 2, .leave]
  | .ms => [.add 8 4, .pop 1, .pop 2, .leave]

/-- From the entry of the bridge to that of `funchook_hook_caller`, which stands at `hookCaller`;
the instruction behind the call is at `next`. -/
def enter (assembler : Assembler) (hookCaller next : Addr 32) (s : State 32) : State 32 :=
  (exec (saveCode assembler) s).call hookCaller next

/-- From the return of `funchook_hook_caller` to `hook_func`. -/
def exit (assembler : Assembler) (s : State 32) : State 32 :=
  (exec (restoreCode assembler) s).jumpReg 0

/-- `ecx` and `edx` -/
def intArgRegs : List Reg := [1, 2]

/-- `ebx`, `ebp`, `esi`, `edi`. -/
def calleeSavedRegs : List Reg := [3, 5, 6, 7]

/-! ## What the bridge is for -/

/-- An argument of the function that has been entered in a state. -/
def stackArg (s : State 32) (i : ℕ) : Addr 32 := s.sp + 4 + 4 * BitVec.ofNat 32 i

/-- The byte belongs to a slot of the registers or of the first `count` stack arguments. -/
def Slot (handle : FunchookArgHandle 32) (count : ℕ) (a : Addr 32) : Prop :=
  (∃ i < intArgRegs.length, InRange (funchookArgGetIntRegAddr handle (BitVec.ofNat 32 i)) 4 a) ∨
    ∃ i < count, InRange (funchookArgGetStackAddr handle (BitVec.ofNat 32 i)) 4 a

/-- The byte belongs to the frame, or to the return address above it. -/
def InFrame (entry : State 32) (a : Addr 32) : Prop := InRange (entry.sp - 12) 16 a

/-- `funchook_hook_caller` has returned from the state `entered`, for a target that was entered in
`entry` with `count` words of arguments. It and the prehook keep to the calling convention, and in
the frame of the bridge only slots were written. -/
structure Returns (P : Platform 32) (fh : FunchookT 32)
    (callback : Addr 32 → FunchookInfo 32 → FunchookInfo 32) (count : ℕ)
    (entry entered returned : State 32) (call : HookCall 32) : Prop where
  called : funchookHookCaller P fh callback (readWord 4 entered.mem (stackArg entered 0))
    (readWord 4 entered.mem (stackArg entered 1)) = some call
  result : returned.reg 0 = call.result
  pc : returned.ip = readWord 4 entered.mem entered.sp
  sp : returned.sp = entered.sp + 4
  calleeSaved : ∀ r ∈ calleeSavedRegs, returned.reg r = entered.reg r
  mem : ∀ a, InFrame entry a → ¬ Slot call.info.argHandle count a →
    returned.mem a = entered.mem a

/-- `funchook_hook_caller` is called on the transit code at `slot`, the prehook has seen the
arguments in the slots, and the hook is entered with the arguments that are in the slots and
otherwise as the target was. -/
structure Forwarded (assembler : Assembler) (slot : Addr 32) (count : ℕ)
    (entry entered returned : State 32) (call : HookCall 32) : Prop where
  transit : readWord 4 entered.mem (stackArg entered 0) = slot
  aligned : assembler = .gas → (entered.sp + 4).toNat % 16 = 0
  argsBelow : ∀ a, InRange entered.sp 12 a → ¬ InFrame entry a
  intSeen : ∀ (i : ℕ) (r : Reg), intArgRegs[i]? = some r → readWord 4 entered.mem
    (funchookArgGetIntRegAddr call.info.argHandle (BitVec.ofNat 32 i)) = entry.reg r
  stackSeen : ∀ i < count, readWord 4 entered.mem
    (funchookArgGetStackAddr call.info.argHandle (BitVec.ofNat 32 i)) =
      readWord 4 entry.mem (stackArg entry i)
  intArg : ∀ (i : ℕ) (r : Reg), intArgRegs[i]? = some r → (exit assembler returned).reg r =
    readWord 4 (exit assembler returned).mem
      (funchookArgGetIntRegAddr call.info.argHandle (BitVec.ofNat 32 i))
  stackSlot : ∀ i, funchookArgGetStackAddr call.info.argHandle (BitVec.ofNat 32 i) =
    stackArg (exit assembler returned) i
  mem : (exit assembler returned).mem = returned.mem
  sp : (exit assembler returned).sp = entry.sp
  returnAddr : readWord 4 (exit assembler returned).mem (exit assembler returned).sp =
    readWord 4 entry.mem entry.sp
  calleeSaved : ∀ r ∈ calleeSavedRegs, (exit assembler returned).reg r = entry.reg r
  target : (exit assembler returned).ip = call.result

/-! ## The frame -/

/-- The base pointer. -/
def basePointer (s : State 32) : Addr 32 := s.sp - 4

/-- The stack pointer in front of the arguments of `funchook_hook_caller`. -/
def argsTop : Assembler → State 32 → Addr 32
  | .gas, s => ((basePointer s - 8) &&& 0xfffffff0) - 8
  | .ms, s => basePointer s - 8

/-- The saved `ebp`, `edx` and `ecx`. -/
def cells (s : State 32) : List (Cell 32) :=
  [⟨0, 4, s.reg 5⟩, ⟨-4, 4, s.reg 2⟩, ⟨-8, 4, s.reg 1⟩]

/-- The two arguments of `funchook_hook_caller` and its return address. -/
def callCells (next : Addr 32) (s : State 32) : List (Cell 32) :=
  [⟨-4, 4, basePointer s⟩, ⟨-8, 4, s.reg 0⟩, ⟨-12, 4, next⟩]

section Enter

variable {assembler : Assembler} {hookCaller next : Addr 32} {s : State 32}

/-- The state in front of the alignment. -/
def framed (s : State 32) : State 32 := exec [.push 5, .mov 4 5, .push 2, .push 1] s

theorem framed_sp : (framed s).sp = basePointer s - 8 := by
  show s.sp - 4 - 4 - 4 = s.sp - 4 - 8
  grind

theorem framed_mem : (framed s).mem = save (basePointer s) (cells s) s.mem := by
  have h0 : basePointer s + 0 = s.sp - 4 := by unfold basePointer; grind
  have h4 : basePointer s + -4 = s.sp - 4 - 4 := by unfold basePointer; grind
  have h8 : basePointer s + -8 = s.sp - 4 - 4 - 4 := by unfold basePointer; grind
  simp only [save, cells, List.map_cons, List.map_nil, Cell.patch, h0, h4, h8]
  rfl

theorem framed_ebp : (framed s).reg 5 = basePointer s := rfl

theorem framed_reg {r : Reg} (h4 : r ≠ 4) (h5 : r ≠ 5) : (framed s).reg r = s.reg r := by
  simp only [framed, exec, List.foldl_cons, List.foldl_nil, Instr.effect]
  rw [State.push_reg _ _ h4, State.push_reg _ _ h4, State.writeReg_reg_of_ne _ _ h5,
    State.push_reg _ _ h4]

/-- The state in front of the arguments of `funchook_hook_caller`. -/
def atArgs : Assembler → State 32 → State 32
  | .gas, s => exec [.and 0xfffffff0 4, .sub 8 4] (framed s)
  | .ms, s => framed s

theorem exec_saveCode :
    exec (saveCode assembler) s = exec [.push 5, .push 0] (atArgs assembler s) := by
  cases assembler <;> rfl

theorem atArgs_sp : (atArgs assembler s).sp = argsTop assembler s := by
  cases assembler with
  | gas =>
    show ((framed s).sp &&& 0xfffffff0) - 8 = _
    rw [framed_sp]
    rfl
  | ms => exact framed_sp

theorem atArgs_reg {r : Reg} (h4 : r ≠ 4) : (atArgs assembler s).reg r = (framed s).reg r := by
  cases assembler with
  | gas =>
    simp only [atArgs, exec, List.foldl_cons, List.foldl_nil, Instr.effect]
    rw [State.writeReg_reg_of_ne _ _ h4, State.writeReg_reg_of_ne _ _ h4]
  | ms => rfl

theorem atArgs_mem : (atArgs assembler s).mem = save (basePointer s) (cells s) s.mem := by
  rw [← framed_mem]
  cases assembler <;> rfl

theorem enter_eq : enter assembler hookCaller next s =
    (((atArgs assembler s).push (basePointer s)).push (s.reg 0)).call hookCaller next := by
  have hebp : (atArgs assembler s).reg 5 = basePointer s :=
    (atArgs_reg (by decide)).trans framed_ebp
  have heax : ((atArgs assembler s).push (basePointer s)).reg 0 = s.reg 0 := by
    rw [State.push_reg _ _ (by decide), atArgs_reg (by decide), framed_reg (by decide) (by decide)]
  rw [enter, exec_saveCode]
  simp only [exec, List.foldl_cons, List.foldl_nil, Instr.effect]
  rw [hebp, heax]

theorem enter_sp : (enter assembler hookCaller next s).sp = argsTop assembler s - 12 := by
  rw [enter_eq, State.call_sp, State.push_sp, State.push_sp, atArgs_sp]
  grind

theorem enter_ebp : (enter assembler hookCaller next s).reg 5 = basePointer s := by
  rw [enter_eq, State.call_reg _ _ _ (by decide), State.push_reg _ _ (by decide),
    State.push_reg _ _ (by decide), atArgs_reg (by decide)]
  rfl

theorem enter_reg {r : Reg} (h4 : r ≠ 4) (h5 : r ≠ 5) :
    (enter assembler hookCaller next s).reg r = s.reg r := by
  rw [enter_eq, State.call_reg _ _ _ h4, State.push_reg _ _ h4, State.push_reg _ _ h4,
    atArgs_reg h4, framed_reg h4 h5]

theorem enter_mem : (enter assembler hookCaller next s).mem =
    save (argsTop assembler s) (callCells next s)
      (save (basePointer s) (cells s) s.mem) := by
  have h4 : argsTop assembler s + -4 = argsTop assembler s - 4 := by grind
  have h8 : argsTop assembler s + -8 = argsTop assembler s - 4 - 4 := by grind
  have h12 : argsTop assembler s + -12 = argsTop assembler s - 4 - 4 - 4 := by grind
  rw [enter_eq]
  simp only [State.call_mem, State.push_mem, State.push_sp, atArgs_sp, atArgs_mem]
  show _ = writeAll ((callCells next s).map (Cell.patch (argsTop assembler s))) _
  simp only [callCells, List.map_cons, List.map_nil, Cell.patch, h4, h8, h12]
  rfl

/-- The arguments of `funchook_hook_caller` and its return address are below the frame. -/
theorem argsTop_below {n : ℕ} (hn : n + 36 ≤ 2 ^ 32) :
    RangesDisjoint (argsTop assembler s - 12) 12 (basePointer s - 8) n := by
  intro a hlow hhigh
  have hgap : (basePointer s - 8 - argsTop assembler s).toNat < 24 := by
    cases assembler with
    | gas =>
      have hmask : (basePointer s - 8 - ((basePointer s - 8) &&& 0xfffffff0)).toNat =
          (basePointer s - 8).toNat % 16 :=
        Blocks.toNat_sub_and_not (show (16 : BitVec 32).toNat = 2 ^ 4 from rfl) _
      have hlt := Nat.mod_lt (basePointer s - 8).toNat (show 0 < 16 by decide)
      have hsum : basePointer s - 8 - argsTop .gas s =
          basePointer s - 8 - ((basePointer s - 8) &&& 0xfffffff0) + 8 := by
        unfold argsTop
        grind
      rw [hsum, BitVec.toNat_add, hmask, show (8 : BitVec 32).toNat = 8 from rfl]
      omega
    | ms =>
      rw [argsTop, BitVec.sub_self]
      decide
  have hlow' : (a - (argsTop assembler s - 12)).toNat < 12 := hlow
  have hhigh' : (a - (basePointer s - 8)).toNat < n := hhigh
  have hsum : a - (argsTop assembler s - 12) = a - (basePointer s - 8) +
      (basePointer s - 8 - argsTop assembler s) + 12 := by
    grind
  rw [hsum, BitVec.toNat_add, BitVec.toNat_add, show (12 : BitVec 32).toNat = 12 from rfl]
    at hlow'
  omega

/-! ## Words of the frame -/

theorem cells_extents (s : State 32) : (cells s).map Cell.extent =
    [((0 : BitVec 32), 4), (-4, 4), (-8, 4)] := rfl

theorem callCells_extents (next : Addr 32) (s : State 32) : (callCells next s).map Cell.extent =
    [((-4 : BitVec 32), 4), (-8, 4), (-12, 4)] := rfl

theorem cells_apart (s : State 32) : ((cells s).map Cell.extent).Pairwise Apart := by
  rw [cells_extents]
  decide

theorem callCells_apart (next : Addr 32) (s : State 32) :
    ((callCells next s).map Cell.extent).Pairwise Apart := by
  rw [callCells_extents]
  decide

theorem cells_within {c : Cell 32} (hc : c ∈ cells s) :
    Within 8 12 c.extent ∧ c.size ≤ 2 ^ 32 := by
  have hall : ∀ e ∈ (cells s).map Cell.extent, Within 8 12 e ∧ e.2 ≤ 2 ^ 32 := by
    rw [cells_extents]
    decide
  exact hall c.extent (List.mem_map_of_mem hc)

theorem callCells_within {c : Cell 32} (hc : c ∈ callCells next s) :
    Within 12 12 c.extent ∧ c.size ≤ 2 ^ 32 := by
  have hall : ∀ e ∈ (callCells next s).map Cell.extent, Within 12 12 e ∧ e.2 ≤ 2 ^ 32 := by
    rw [callCells_extents]
    decide
  exact hall c.extent (List.mem_map_of_mem hc)

/-- In the frame and above it the call has written nothing. -/
theorem enter_saved {n : ℕ} (hn : n + 36 ≤ 2 ^ 32) {a : Addr 32}
    (ha : InRange (basePointer s - 8) n a) : (enter assembler hookCaller next s).mem a =
      save (basePointer s) (cells s) s.mem a := by
  rw [enter_mem]
  apply save_frame
  intro c hc hin
  exact argsTop_below hn a ((callCells_within hc).1.inRange (by decide) hin) ha

/-- Every saved register is in its cell when `funchook_hook_caller` is entered. -/
theorem readWord_saved {c : Cell 32} (hc : c ∈ cells s) :
    readWord c.size (enter assembler hookCaller next s).mem (basePointer s + c.offset) =
      c.value := by
  have hsaved : readWord c.size (save (basePointer s) (cells s) s.mem)
      (basePointer s + c.offset) = c.value :=
    readWord_save (cells_apart s) hc fun d hd => (cells_within hd).2
  rw [← hsaved]
  apply readWord_congr (cells_within hc).2
  intro a ha
  exact enter_saved (by decide) ((cells_within hc).1.inRange (by decide) ha)

/-- So are the arguments of `funchook_hook_caller`. -/
theorem readWord_passed {c : Cell 32} (hc : c ∈ callCells next s) :
    readWord c.size (enter assembler hookCaller next s).mem (argsTop assembler s + c.offset) =
      c.value := by
  rw [enter_mem]
  exact readWord_save (callCells_apart next s) hc fun d hd => (callCells_within hd).2

/-- The return address and the arguments of the target are as at the entry. -/
theorem enter_above {k : ℕ} (hk : 12 ≤ k) (hle : k + 40 ≤ 2 ^ 32) :
    readWord 4 (enter assembler hookCaller next s).mem (basePointer s - 8 + BitVec.ofNat 32 k) =
      readWord 4 s.mem (basePointer s - 8 + BitVec.ofNat 32 k) := by
  apply readWord_congr (by decide)
  intro a ha
  rw [enter_saved (n := k + 4) (by omega) (inRange_of_inner ha (Nat.le_refl _) (by omega))]
  apply save_frame
  intro c hc hcell
  exact (cells_within hc).1.disjoint_above hk (by omega) (basePointer s) a hcell ha

end Enter

/-! ## The way back -/

section Exit

variable {assembler : Assembler} {r : State 32}

theorem exit_mem : (exit assembler r).mem = r.mem := by cases assembler <;> rfl

/-- `leave` finds the stack pointer in `ebp`. -/
theorem exit_sp : (exit assembler r).sp = r.reg 5 + 4 := by cases assembler <;> rfl

theorem exit_ebp : (exit assembler r).reg 5 = readWord 4 r.mem (r.reg 5) := by
  cases assembler <;> rfl

theorem exit_ip : (exit assembler r).ip = r.reg 0 := by cases assembler <;> rfl

/-- The stack pointer of the bridge for `ms` is where the arguments of the call begin. -/
def Unwound (assembler : Assembler) (r : State 32) : Prop :=
  assembler = .ms → r.sp + 8 = r.reg 5 + -8

theorem exit_ecx (h : Unwound assembler r) :
    (exit assembler r).reg 1 = readWord 4 r.mem (r.reg 5 + -8) := by
  cases assembler with
  | gas => rfl
  | ms =>
    rw [← h rfl]
    rfl

theorem exit_edx (h : Unwound assembler r) :
    (exit assembler r).reg 2 = readWord 4 r.mem (r.reg 5 + -4) := by
  cases assembler with
  | gas => rfl
  | ms =>
    have hedx : r.reg 5 + -4 = r.sp + 8 + 4 := by
      rw [h rfl]
      grind
    rw [hedx]
    rfl

/-- Other registers are in no instruction behind the call. -/
theorem exit_reg {q : Reg} (h1 : q ≠ 1) (h2 : q ≠ 2) (h4 : q ≠ 4) (h5 : q ≠ 5) :
    (exit assembler r).reg q = r.reg q := by
  show (exec (restoreCode assembler) r).reg q = r.reg q
  cases assembler with
  | gas =>
    simp only [restoreCode, exec, List.foldl_cons, List.foldl_nil, Instr.effect]
    rw [State.pop_reg _ h5 h4, State.writeReg_reg_of_ne _ _ h4, State.writeReg_reg_of_ne _ _ h2,
      State.writeReg_reg_of_ne _ _ h1]
  | ms =>
    simp only [restoreCode, exec, List.foldl_cons, List.foldl_nil, Instr.effect]
    rw [State.pop_reg _ h5 h4, State.writeReg_reg_of_ne _ _ h4, State.pop_reg _ h2 h4,
      State.pop_reg _ h1 h4, State.writeReg_reg_of_ne _ _ h4]

end Exit

/-! ## Slots -/

section Slots

variable {handle : FunchookArgHandle 32}

theorem getIntRegAddr_eq (i : ℕ) : funchookArgGetIntRegAddr handle (BitVec.ofNat 32 i) =
    handle.basePointer - 8 + BitVec.ofNat 32 (4 * i) := by
  rw [BitVec.ofNat_mul]
  unfold funchookArgGetIntRegAddr element
  grind

theorem getStackAddr_eq (i : ℕ) : funchookArgGetStackAddr handle (BitVec.ofNat 32 i) =
    handle.basePointer - 8 + BitVec.ofNat 32 (16 + 4 * i) := by
  rw [BitVec.ofNat_add, BitVec.ofNat_mul]
  unfold funchookArgGetStackAddr element
  grind

/-- The slots are the first eight bytes of the frame and what follows the return address. -/
theorem not_slot {count k : ℕ} (hcount : 4 * count + 16 ≤ 2 ^ 32) (hk : 8 ≤ k) (hk' : k + 4 ≤ 16)
    {a : Addr 32} (ha : InRange (handle.basePointer - 8 + BitVec.ofNat 32 k) 4 a) :
    ¬ Slot handle count a := by
  have hdistance := sub_toNat_of_inner ha (by omega)
  have hlt : (a - (handle.basePointer - 8 + BitVec.ofNat 32 k)).toNat < 4 := ha
  intro hslot
  rcases hslot with ⟨i, hi, hint⟩ | ⟨i, hi, hstack⟩
  · have hi' : i < 2 := hi
    rw [getIntRegAddr_eq] at hint
    have hdistance' := sub_toNat_of_inner hint (by omega)
    have hlt' : (a - (handle.basePointer - 8 + BitVec.ofNat 32 (4 * i))).toNat < 4 := hint
    omega
  · rw [getStackAddr_eq] at hstack
    have hdistance' := sub_toNat_of_inner hstack (by omega)
    omega

end Slots

/-! ## The bridge forwards -/

section Forwards

variable {assembler : Assembler} {hookCaller next : Addr 32} {P : Platform 32} {fh : FunchookT 32}
  {callback : Addr 32 → FunchookInfo 32 → FunchookInfo 32} {count : ℕ}
  {entry returned : State 32} {call : HookCall 32}

/-- The arguments that `funchook_hook_caller` is called with. -/
theorem enter_args (entry : State 32) :
    readWord 4 (enter assembler hookCaller next entry).mem
        (stackArg (enter assembler hookCaller next entry) 0) = entry.reg 0 ∧
      readWord 4 (enter assembler hookCaller next entry).mem
        (stackArg (enter assembler hookCaller next entry) 1) = basePointer entry := by
  have h0 : stackArg (enter assembler hookCaller next entry) 0 =
      argsTop assembler entry + -8 := by
    rw [stackArg, enter_sp]
    grind
  have h1 : stackArg (enter assembler hookCaller next entry) 1 =
      argsTop assembler entry + -4 := by
    rw [stackArg, enter_sp]
    grind
  rw [h0, h1]
  exact ⟨readWord_passed (c := ⟨-8, 4, entry.reg 0⟩) (by simp [callCells]),
    readWord_passed (c := ⟨-4, 4, basePointer entry⟩) (by simp [callCells])⟩

/-- The prehook is given the base pointer. -/
theorem handle_basePointer (h : Returns P fh callback count entry
    (enter assembler hookCaller next entry) returned call) :
    call.info.argHandle.basePointer = basePointer entry := by
  have hcalled := h.called
  rw [(enter_args entry).2] at hcalled
  obtain ⟨e, -, rfl⟩ := Option.map_eq_some_iff.mp hcalled
  rfl

theorem returned_ebp (h : Returns P fh callback count entry
    (enter assembler hookCaller next entry) returned call) :
    returned.reg 5 = basePointer entry :=
  (h.calleeSaved 5 (by decide)).trans enter_ebp

theorem frame_start (entry : State 32) : basePointer entry - 8 = entry.sp - 12 := by
  unfold basePointer
  grind

/-- **What the prehook leaves alone**: the saved `ebp` and the return address. -/
theorem readWord_returned (h : Returns P fh callback count entry
    (enter assembler hookCaller next entry) returned call) (hcount : 4 * count + 52 ≤ 2 ^ 32)
    {k : ℕ} (hk : 8 ≤ k) (hk' : k + 4 ≤ 16) :
    readWord 4 returned.mem (basePointer entry - 8 + BitVec.ofNat 32 k) =
      readWord 4 (enter assembler hookCaller next entry).mem
        (basePointer entry - 8 + BitVec.ofNat 32 k) := by
  apply readWord_congr (by decide)
  intro a ha
  apply h.mem
  · rw [frame_start] at ha
    exact inRange_of_inner ha hk' (by decide)
  · rw [← handle_basePointer h] at ha
    exact not_slot (by omega) hk hk' ha

theorem returned_unwound (h : Returns P fh callback count entry
    (enter assembler hookCaller next entry) returned call) : Unwound assembler returned := by
  intro hms
  subst hms
  rw [h.sp, enter_sp, returned_ebp h, argsTop]
  grind

theorem intArg_cases {i : ℕ} {r : Reg} (hr : intArgRegs[i]? = some r) :
    i = 0 ∧ r = 1 ∨ i = 1 ∧ r = 2 := by
  match i, hr with
  | 0, hr => exact Or.inl ⟨rfl, (Option.some.inj hr).symm⟩
  | 1, hr => exact Or.inr ⟨rfl, (Option.some.inj hr).symm⟩
  | i + 2, hr => cases hr

/-- An integer argument register is kept in the frame. -/
theorem intArg_cell {i : ℕ} {r : Reg} (hr : intArgRegs[i]? = some r) (entry : State 32) :
    (⟨-8 + 4 * BitVec.ofNat 32 i, 4, entry.reg r⟩ : Cell 32) ∈ cells entry := by
  rcases intArg_cases hr with ⟨rfl, rfl⟩ | ⟨rfl, rfl⟩
  · simp [cells]
  · simp [cells]

theorem intArg_loaded {i : ℕ} {r : Reg} (hr : intArgRegs[i]? = some r) {t : State 32}
    (ht : Unwound assembler t) : (exit assembler t).reg r =
      readWord 4 t.mem (t.reg 5 + (-8 + 4 * BitVec.ofNat 32 i)) := by
  rcases intArg_cases hr with ⟨rfl, rfl⟩ | ⟨rfl, rfl⟩
  · exact exit_ecx ht
  · exact exit_edx ht

/-- The bridge for `gas` calls `funchook_hook_caller` on a stack that is aligned to 16 bytes. -/
theorem enter_aligned (entry : State 32) :
    ((enter .gas hookCaller next entry).sp + 4).toNat % 16 = 0 := by
  have hdown : ((basePointer entry - 8) &&& 0xfffffff0).toNat =
      (basePointer entry - 8).toNat / 16 * 16 :=
    Blocks.toNat_and_not_sub_one (show (16 : BitVec 32).toNat = 2 ^ 4 from rfl) _
  have hsum : (enter .gas hookCaller next entry).sp + 4 =
      ((basePointer entry - 8) &&& 0xfffffff0) - 16 := by
    rw [enter_sp]
    unfold argsTop
    grind
  rw [hsum, BitVec.toNat_sub, hdown, show (16 : BitVec 32).toNat = 16 from rfl]
  omega

/-- The arguments that `funchook_hook_caller` may overwrite are not in the frame. -/
theorem args_below {a : Addr 32} (ha : InRange (enter assembler hookCaller next entry).sp 12 a) :
    ¬ InFrame entry a := by
  rw [enter_sp] at ha
  intro hin
  rw [InFrame, ← frame_start] at hin
  exact argsTop_below (by decide) a ha hin

/-- A register that a function keeps has at the hook the value that it had at the target. -/
theorem calleeSaved_kept (h : Returns P fh callback count entry
    (enter assembler hookCaller next entry) returned call) (hcount : 4 * count + 52 ≤ 2 ^ 32)
    {r : Reg} (hr : r ∈ calleeSavedRegs) : (exit assembler returned).reg r = entry.reg r := by
  have hall : ∀ r ∈ calleeSavedRegs, r ≠ 1 ∧ r ≠ 2 ∧ r ≠ 4 := by decide
  obtain ⟨h1, h2, h4⟩ := hall r hr
  by_cases h5 : r = 5
  · subst h5
    have hbase : basePointer entry = basePointer entry - 8 + BitVec.ofNat 32 8 := by grind
    have hcell : readWord 4 (enter assembler hookCaller next entry).mem (basePointer entry + 0) =
        entry.reg 5 := readWord_saved (c := ⟨0, 4, entry.reg 5⟩) (by simp [cells])
    rw [exit_ebp, returned_ebp h, hbase, readWord_returned h hcount (by decide) (by decide),
      ← hbase, ← hcell]
    exact congrArg _ (BitVec.add_zero _).symm
  · rw [exit_reg h1 h2 h4 h5, h.calleeSaved r hr, enter_reg h4 h5]

theorem exit_entry_sp (h : Returns P fh callback count entry
    (enter assembler hookCaller next entry) returned call) :
    (exit assembler returned).sp = entry.sp := by
  rw [exit_sp, returned_ebp h]
  exact BitVec.sub_add_cancel entry.sp 4

/-- **The bridges forward the arguments and honour edits.** For either assembler, when
`funchook_hook_caller` and the prehook keep to the calling convention and write in the frame to
slots only, the hook gets what is in the slots and is entered as the target was. -/
theorem arguments_forwarded (h : Returns P fh callback count entry
    (enter assembler hookCaller next entry) returned call) (hcount : 4 * count + 52 ≤ 2 ^ 32) :
    Forwarded assembler (entry.reg 0) count entry (enter assembler hookCaller next entry) returned
      call := by
  have hhandle := handle_basePointer h
  have hslot : ∀ i : ℕ, funchookArgGetIntRegAddr call.info.argHandle (BitVec.ofNat 32 i) =
      basePointer entry + (-8 + 4 * BitVec.ofNat 32 i) := by
    intro i
    unfold funchookArgGetIntRegAddr element
    rw [hhandle]
    grind
  have hstack : ∀ i : ℕ, funchookArgGetStackAddr call.info.argHandle (BitVec.ofNat 32 i) =
      stackArg entry i := by
    intro i
    unfold funchookArgGetStackAddr element stackArg
    rw [hhandle]
    unfold basePointer
    grind
  constructor
  case transit => exact (enter_args entry).1
  case aligned =>
    intro hgas
    subst hgas
    exact enter_aligned entry
  case argsBelow => exact fun a ha => args_below ha
  case intSeen =>
    intro i r hr
    rw [hslot]
    exact readWord_saved (intArg_cell hr entry)
  case stackSeen =>
    intro i hi
    rw [← hstack, getStackAddr_eq, hhandle]
    exact enter_above (by omega) (by omega)
  case intArg =>
    intro i r hr
    rw [hslot, exit_mem, intArg_loaded hr (returned_unwound h), returned_ebp h]
  case stackSlot =>
    intro i
    rw [hstack, stackArg, stackArg, exit_entry_sp h]
  case mem => exact exit_mem
  case sp => exact exit_entry_sp h
  case returnAddr =>
    have hret : entry.sp = basePointer entry - 8 + BitVec.ofNat 32 12 := by
      unfold basePointer
      grind
    rw [exit_entry_sp h, exit_mem, hret, readWord_returned h hcount (by decide) (by decide)]
    exact enter_above (by decide) (by decide)
  case calleeSaved => exact fun r hr => calleeSaved_kept h hcount hr
  case target =>
    rw [exit_ip]
    exact h.result

end Forwards

/-! ## From the target to the hook -/

section Dispatch

open X86 (Build platform BelowStack BridgeReached)

variable {b : Build .i386} {slot : Addr 32} {s entry : State 32}

/-- The transit code writes below the stack pointer only. -/
theorem reached_mem {hookCallerAsm : Addr 32} (h : BridgeReached .i386 hookCallerAsm slot s entry)
    {k n : ℕ} (hle : k + n + 4 ≤ 2 ^ 32) {a : Addr 32}
    (ha : InRange (s.sp + BitVec.ofNat 32 k) n a) : entry.mem a = s.mem a := by
  apply h.mem
  intro hbelow
  have hlow : (a - (s.sp - 4)).toNat < 4 := hbelow
  have hhigh : (a - (s.sp + BitVec.ofNat 32 k)).toNat < n := ha
  have hsum : a - (s.sp - 4) = (a - (s.sp + BitVec.ofNat 32 k)) + BitVec.ofNat 32 (k + 4) := by
    rw [BitVec.ofNat_add]
    grind
  rw [hsum, BitVec.toNat_add, BitVec.toNat_ofNat, Nat.mod_eq_of_lt (a := k + 4) (by omega)] at hlow
  omega

theorem reached_word {hookCallerAsm : Addr 32} (h : BridgeReached .i386 hookCallerAsm slot s entry)
    {k : ℕ} (hle : k + 8 ≤ 2 ^ 32) : readWord 4 entry.mem (s.sp + BitVec.ofNat 32 k) =
      readWord 4 s.mem (s.sp + BitVec.ofNat 32 k) :=
  readWord_congr (by decide) fun _ ha => reached_mem h hle ha

/-- What the bridge forwards from its own entry, it forwards from the entry of the target. -/
theorem forwarded_of_reached {hookCallerAsm : Addr 32} {assembler : Assembler} {count : ℕ}
    {entered returned : State 32} {call : HookCall 32}
    (h : Forwarded assembler (entry.reg 0) count entry entered returned call)
    (hreached : BridgeReached .i386 hookCallerAsm slot s entry) (hcount : 4 * count + 52 ≤ 2 ^ 32) :
    Forwarded assembler slot count s entered returned call := by
  have hregs : ∀ r : Reg, r ≠ 0 → entry.reg r = s.reg r := hreached.regs
  have hsp : entry.sp = s.sp := hregs 4 (by decide)
  have harg : ∀ i : ℕ, stackArg entry i = s.sp + BitVec.ofNat 32 (4 + 4 * i) := by
    intro i
    rw [stackArg, hsp, BitVec.ofNat_add, BitVec.ofNat_mul]
    grind
  constructor
  case transit => exact h.transit.trans hreached.transit
  case aligned => exact h.aligned
  case argsBelow =>
    intro a ha
    rw [InFrame, ← hsp]
    exact h.argsBelow a ha
  case intSeen =>
    intro i r hr
    have hne : ∀ r ∈ intArgRegs, r ≠ 0 := by decide
    rw [← hregs r (hne r (List.mem_of_getElem? hr))]
    exact h.intSeen i r hr
  case stackSeen =>
    intro i hi
    have hsame : stackArg s i = stackArg entry i := by rw [stackArg, stackArg, hsp]
    rw [h.stackSeen i hi, hsame, harg]
    exact reached_word hreached (by omega)
  case intArg => exact h.intArg
  case stackSlot => exact h.stackSlot
  case mem => exact h.mem
  case sp => exact h.sp.trans hsp
  case returnAddr =>
    have hword := reached_word (k := 0) hreached (by decide)
    rw [BitVec.add_zero] at hword
    rw [h.returnAddr, hsp, hword]
  case calleeSaved =>
    intro r hr
    have hne : ∀ r ∈ calleeSavedRegs, r ≠ 0 := by decide
    rw [h.calleeSaved r hr, hregs r (hne r hr)]
  case target => exact h.target

/-- **From a prehooked function to its hook.** After a successful install the function leads to the
bridge. Whatever its prehook returns by the calling convention, it was called on the entry of the
function, and the hook is entered as the function was, with the arguments that are in the slots. -/
theorem prehook_forwards (b : Build .i386) {s₀ : World 32} {st : HandleState 32}
    (hrun : PrepareRun (platform b) s₀ st) (os : List OsAnswer)
    (hrv : (funchookInstallInternal (platform b) st.fh st.world os).rv = errorSuccess)
    (hapart : st.fh.entries.Pairwise (PatchesApart (platform b)))
    (honly : PatchesTrampolinesOnly (platform b) st.fh) {e : FunchookEntry 32}
    (he : EntryAt (platform b) (funchookInstallInternal (platform b) st.fh st.world os).fh slot e)
    (hprehook : e.prehook ≠ 0)
    (hmem : s.mem = (funchookInstallInternal (platform b) st.fh st.world os).world.bytes)
    (hip : s.ip = e.targetFunc)
    (hclear : ∀ a, BelowStack .i386 s.sp a → ¬ InRange slot (X86.transitCodeSize .i386) a) :
    ∃ n entry, Ia32.run false n s = some entry ∧
      BridgeReached .i386 b.hookCallerAsm slot s entry ∧
      ∀ assembler hookCaller next callback count returned call, 4 * count + 52 ≤ 2 ^ 32 →
        Returns (platform b) (funchookInstallInternal (platform b) st.fh st.world os).fh callback
          count s (enter assembler hookCaller next entry) returned call →
        call = ⟨e.prehook, entryInfo (platform b) slot e (basePointer s),
          hookOrTrampoline ((platform b).trampolineAddr slot)
            (callback e.prehook (entryInfo (platform b) slot e (basePointer s))).hookFunc⟩ ∧
        Forwarded assembler slot count s (enter assembler hookCaller next entry) returned call := by
  have hinv := entriesInv_run hrun
  have hunique := hinv.pages.slotsUnique (X86.entrySize_pos b)
  have hbefore : ∀ slot e, EntryAt (platform b)
      (funchookInstallInternal (platform b) st.fh st.world os).fh slot e →
        EntryAt (platform b) st.fh slot e :=
    fun _ _ => (install_entryAt st.fh st.world os).mp
  have hcode := X86.entryCode_of_builtFor (hinv.built slot e (hbefore slot e he))
  have hdispatches := X86.dispatches_of_code hcode
    (install_code hinv.pages hapart honly hrv (hbefore slot e he) (X86.newPatch_size hcode))
    (fun slot e e' he he' => hunique slot e e' (hbefore slot e he) (hbefore slot e' he')) he
  obtain ⟨hfirst, n, entry, hrest, hreached⟩ := hdispatches.bridge hprehook s hmem hip hclear
  refine ⟨1 + n, entry, (Ia32.run_add hfirst n).trans hrest, hreached, ?_⟩
  intro assembler hookCaller next callback count returned call hcount hreturns
  have hsp : entry.sp = s.sp := hreached.regs 4 (by decide)
  have hbase : basePointer entry = basePointer s := congrArg (· - 4) hsp
  have hentry : Returns (platform b)
      (funchookInstallInternal (platform b) st.fh st.world os).fh callback count entry
      (enter assembler hookCaller next entry) returned call :=
    { hreturns with
      mem := fun a ha => hreturns.mem a (by rwa [InFrame, ← hsp]) }
  have hcalled := hreturns.called
  rw [(enter_args entry).1, (enter_args entry).2, hbase,
    show entry.reg 0 = slot from hreached.transit] at hcalled
  exact ⟨Option.some.inj (hcalled.symm.trans (hdispatches.caller hprehook callback _)),
    forwarded_of_reached (arguments_forwarded hentry hcount) hreached hcount⟩

end Dispatch

/-! ## A prehook that edits the first argument -/

section Edited

variable {assembler : Assembler} {hookCaller next value : Addr 32} {P : Platform 32}
  {fh : FunchookT 32} {callback : Addr 32 → FunchookInfo 32 → FunchookInfo 32}
  {target entry : State 32} {call : HookCall 32}

/-- The state behind a call that `t` is in front of, and whose prehook stores `value` in the first
slot on the stack. -/
def edited (call : HookCall 32) (value : BitVec 32) (t : State 32) : State 32 :=
  { t with
    reg := fun q => if q = 0 then call.result else if q = 4 then t.sp + 4 else t.reg q
    mem := write t.mem (funchookArgGetStackAddr call.info.argHandle (BitVec.ofNat 32 0))
      (leBytes 4 value)
    ip := readWord 4 t.mem t.sp }

theorem edited_reg {t : State 32} (q : Reg) : (edited call value t).reg q =
    if q = 0 then call.result else if q = 4 then t.sp + 4 else t.reg q := rfl

theorem edited_returns {count : ℕ}
    (h : funchookHookCaller P fh callback (entry.reg 0) (basePointer entry) = some call) :
    Returns P fh callback (count + 1) target (enter assembler hookCaller next entry)
      (edited call value (enter assembler hookCaller next entry)) call := by
  constructor
  case called =>
    rw [(enter_args entry).1, (enter_args entry).2]
    exact h
  case result => rfl
  case pc => rfl
  case sp => rfl
  case calleeSaved =>
    intro r hr
    have hall : ∀ r ∈ calleeSavedRegs, r ≠ 0 ∧ r ≠ 4 := by decide
    rw [edited_reg, if_neg (hall r hr).1, if_neg (hall r hr).2]
  case mem =>
    intro a _ hslot
    apply write_of_not_inRange
    rw [leBytes_length]
    exact fun hin => hslot (Or.inr ⟨0, Nat.succ_pos count, hin⟩)

end Edited

/-- The sample platform of 32-bit x86. -/
def samplePlatform32 : Platform 32 := X86.platform (X86.sampleBuild .i386)

/-- The function at `0x401000` with a prehook and without a hook. -/
def samplePrehooked32 : PrepareResult 32 :=
  (funchookPrepareWithParams samplePlatform32 funchookCreate X86.sampleWorld 0x401000
    ⟨0, 0x402100, 0, 0⟩ ⟨.ok 0x500000, .ok⟩).get (by decide +kernel)

def sampleInstalled32 : CallResult 32 :=
  funchookInstallInternal samplePlatform32 samplePrehooked32.fh samplePrehooked32.world []

def sampleSlot32 : Addr 32 := samplePlatform32.slotAddr 0x500000 0

def sampleEntry32 : FunchookEntry 32 :=
  (entryAtAddr samplePlatform32 sampleInstalled32.fh.pageList sampleSlot32).get (by decide +kernel)

/-- The function is called on a stack that is not aligned. -/
def sampleTarget32 : State 32 where
  reg := fun q => if q = 4 then 0x7ffe100c else 7
  flags := 0
  mem := sampleInstalled32.world.bytes
  ip := sampleEntry32.targetFunc

theorem samplePrehooked32_run : PrepareRun samplePlatform32 X86.sampleWorld
    ⟨samplePrehooked32.fh, samplePrehooked32.world, false⟩ := by
  have hfresh : AllocAnswer.Fresh samplePlatform32 ⟨.ok 0x500000, .ok⟩ X86.sampleWorld := by
    intro p hp a ha
    cases hp
    have hlt : (a - 0x500000).toNat < 4096 := ha
    refine decide_eq_false fun h => ?_
    have hlt' : (a - 0x400000).toNat < 0x4000 := h
    bv_omega
  exact .call .start (.prepareWithParams 0x401000 ⟨0, 0x402100, 0, 0⟩ ⟨.ok 0x500000, .ok⟩) rfl
    ⟨hfresh, rfl⟩

/-- The prehook leaves the hook as it is, null. -/
def sampleCall32 : HookCall 32 :=
  (funchookHookCaller samplePlatform32 sampleInstalled32.fh (fun _ info => info) sampleSlot32
    (basePointer sampleTarget32)).get (by decide +kernel)

theorem sampleEntry32_at : EntryAt samplePlatform32 sampleInstalled32.fh sampleSlot32
    sampleEntry32 :=
  entryAt_of_entryAtAddr (Option.some_get _).symm

theorem prehook_forwards_sample :
    ∃ n entry, Ia32.run false n sampleTarget32 = some entry ∧ ∀ assembler,
      Forwarded assembler sampleSlot32 3 sampleTarget32 (enter assembler 0x402000 0x403000 entry)
        (edited sampleCall32 42 (enter assembler 0x402000 0x403000 entry)) sampleCall32 := by
  have hpages : ∀ e ∈ samplePrehooked32.fh.entries, ∀ page ∈ samplePrehooked32.fh.pageList,
      samplePlatform32.patchCodeByteSize e ≤ (page.addr - e.targetFunc).toNat ∧
        samplePlatform32.pageSize ≤ (e.targetFunc - page.addr).toNat := by
    decide +kernel
  have honly : PatchesTrampolinesOnly samplePlatform32 samplePrehooked32.fh := by
    intro e he page hpage a hta ha
    obtain ⟨hbefore, hbehind⟩ := hpages e he page hpage
    exact absurd ha (rangesDisjoint_of_distance hbefore hbehind a hta)
  have hapart : samplePrehooked32.fh.entries.Pairwise (PatchesApart samplePlatform32) :=
    X86.patchesApart_of_distant (by decide +kernel)
  have hclear : ∀ a, X86.BelowStack .i386 sampleTarget32.sp a →
      ¬ InRange sampleSlot32 (X86.transitCodeSize .i386) a :=
    rangesDisjoint_of_distance (by decide +kernel) (by decide +kernel)
  obtain ⟨n, entry, hrun, hreached, hforwards⟩ := prehook_forwards (X86.sampleBuild .i386)
    samplePrehooked32_run [] (by decide +kernel) hapart honly sampleEntry32_at (by decide +kernel)
    (s := sampleTarget32) rfl rfl hclear
  have hbase : basePointer entry = basePointer sampleTarget32 :=
    congrArg (· - 4) (hreached.regs 4 (by decide))
  have hcalled : funchookHookCaller samplePlatform32 sampleInstalled32.fh (fun _ info => info)
      (entry.reg 0) (basePointer entry) = some sampleCall32 := by
    rw [hbase, show entry.reg 0 = sampleSlot32 from hreached.transit]
    exact (Option.some_get _).symm
  refine ⟨n, entry, hrun, fun assembler => ?_⟩
  exact (hforwards assembler 0x402000 0x403000 (fun _ info => info) 3 _ sampleCall32 (by decide)
    (edited_returns hcalled)).2

end Funchook.I686
