import Funchook.HookCaller
import Funchook.Lib.Frame

/-!
# The bridge to a prehook (`prehook-x86_64-sysv.S`, `prehook-arm64-gas.S`)

`funchook_hook_caller_asm` saves the argument registers in a frame, calls `funchook_hook_caller`
with the address of the transit code and a base pointer into the frame, restores the registers and
jumps to the address that was returned. The accessors of `arch_x86.c` and `arch_arm64.c` compute the
addresses of the saved arguments from the base pointer. `Bridge` is what both bridges have in
common, and `Forwarded` what they are for.
-/

namespace Funchook

open ByteMemory Frame

/-! ## What a bridge is for -/

/-- A bridge on a 64-bit machine, with the calling convention that it is written for. -/
structure Bridge (State : Type) where
  mem : State → Mem 64
  pc : State → Addr 64
  sp : State → Addr 64
  /-- the registers of the integer arguments, the first argument first -/
  intArgs : List (State → BitVec 64)
  /-- the registers of the floating-point arguments -/
  fltArgs : List (State → BitVec 128)
  /-- the registers of the first two arguments and of the result -/
  firstArg : State → BitVec 64
  secondArg : State → BitVec 64
  result : State → BitVec 64
  /-- the registers that a function keeps -/
  calleeSaved : List (State → BitVec 64)
  /-- other registers that the bridge keeps -/
  kept : List (State → BitVec 64)
  /-- where a function returns to, in the state in which it is entered -/
  returnAddr : State → Addr 64
  /-- the bytes that a call pushes and a return pops -/
  linkSize : ℕ
  /-- where the transit code leaves its address -/
  transit : State → BitVec 64
  /-- the bytes below the stack pointer at the entry that the bridge saves registers in -/
  frameSize : ℕ
  getIntRegAddr : FunchookArgHandle 64 → BitVec 32 → Addr 64
  getFltRegAddr : FunchookArgHandle 64 → BitVec 32 → Addr 64
  getStackAddr : FunchookArgHandle 64 → BitVec 32 → Addr 64
  /-- from the first instruction of the bridge to the first one of `funchook_hook_caller` -/
  enter : State → State
  /-- from the return of `funchook_hook_caller` to the first instruction of the hook -/
  exit : State → State

namespace Bridge

variable {State : Type} (b : Bridge State)

/-- The byte belongs to a slot that the accessors give out. A position is a C `int`. -/
def Slot (handle : FunchookArgHandle 64) (a : Addr 64) : Prop :=
  (∃ i < b.intArgs.length, InRange (b.getIntRegAddr handle (BitVec.ofNat 32 i)) 8 a) ∨
    (∃ i < b.fltArgs.length, InRange (b.getFltRegAddr handle (BitVec.ofNat 32 i)) 16 a) ∨
    ∃ pos : BitVec 32, 0 ≤ pos.toInt ∧ InRange (b.getStackAddr handle pos) 8 a

/-- The byte belongs to the frame, or to the return address above it. -/
def InFrame (entry : State) (a : Addr 64) : Prop :=
  InRange (b.sp entry - BitVec.ofNat 64 b.frameSize) (b.frameSize + b.linkSize) a

/-- `funchook_hook_caller` has returned. It and the prehook keep to the calling convention, and in
the frame of the bridge only slots were written. -/
structure Returns (P : Platform 64) (fh : FunchookT 64)
    (callback : Addr 64 → FunchookInfo 64 → FunchookInfo 64) (entry returned : State)
    (call : HookCall 64) : Prop where
  called : funchookHookCaller P fh callback (b.firstArg (b.enter entry))
    (b.secondArg (b.enter entry)) = some call
  result : b.result returned = call.result
  pc : b.pc returned = b.returnAddr (b.enter entry)
  sp : b.sp returned = b.sp (b.enter entry) + BitVec.ofNat 64 b.linkSize
  calleeSaved : ∀ r ∈ b.calleeSaved, r returned = r (b.enter entry)
  mem : ∀ a, b.InFrame entry a → ¬ b.Slot call.info.argHandle a →
    b.mem returned a = b.mem (b.enter entry) a

/-- The prehook has seen the arguments in the slots, and the hook is entered with the arguments that
are in the slots and otherwise as the target was. -/
structure Forwarded (entry returned : State) (call : HookCall 64) : Prop where
  transit : b.firstArg (b.enter entry) = b.transit entry
  intSeen : ∀ i r, b.intArgs[i]? = some r → readWord 8 (b.mem (b.enter entry))
    (b.getIntRegAddr call.info.argHandle (BitVec.ofNat 32 i)) = r entry
  fltSeen : ∀ i r, b.fltArgs[i]? = some r → readWord 16 (b.mem (b.enter entry))
    (b.getFltRegAddr call.info.argHandle (BitVec.ofNat 32 i)) = r entry
  stackSeen : ∀ pos : BitVec 32, 0 ≤ pos.toInt → readWord 8 (b.mem (b.enter entry))
    (b.getStackAddr call.info.argHandle pos) = readWord 8 (b.mem entry)
      (b.sp entry + BitVec.ofNat 64 b.linkSize + 8 * pos.signExtend 64)
  intArg : ∀ i r, b.intArgs[i]? = some r → r (b.exit returned) =
    readWord 8 (b.mem (b.exit returned))
      (b.getIntRegAddr call.info.argHandle (BitVec.ofNat 32 i))
  fltArg : ∀ i r, b.fltArgs[i]? = some r → r (b.exit returned) =
    readWord 16 (b.mem (b.exit returned))
      (b.getFltRegAddr call.info.argHandle (BitVec.ofNat 32 i))
  stackArg : ∀ pos : BitVec 32, 0 ≤ pos.toInt → b.getStackAddr call.info.argHandle pos =
    b.sp (b.exit returned) + BitVec.ofNat 64 b.linkSize + 8 * pos.signExtend 64
  mem : b.mem (b.exit returned) = b.mem returned
  sp : b.sp (b.exit returned) = b.sp entry
  returnAddr : b.returnAddr (b.exit returned) = b.returnAddr entry
  calleeSaved : ∀ r ∈ b.calleeSaved, r (b.exit returned) = r entry
  kept : ∀ r ∈ b.kept, r (b.exit returned) = r entry
  target : b.pc (b.exit returned) = call.result

end Bridge

/-- The prehook is given the base pointer that `funchook_hook_caller` was called with. -/
theorem funchookHookCaller_basePointer {P : Platform 64} {fh : FunchookT 64}
    {callback : Addr 64 → FunchookInfo 64 → FunchookInfo 64} {transitAddr basePointer : Addr 64}
    {call : HookCall 64}
    (h : funchookHookCaller P fh callback transitAddr basePointer = some call) :
    call.info.argHandle.basePointer = basePointer := by
  obtain ⟨entry, -, rfl⟩ := Option.map_eq_some_iff.mp h
  rfl

/-- The address `n` elements behind a `const size_t *`. -/
def element (p : Addr 64) (n : BitVec 64) : Addr 64 := p + 8 * n

theorem element_element (p : Addr 64) (n k : BitVec 64) :
    element (element p n) k = p + (8 * n + 8 * k) := BitVec.add_assoc p (8 * n) (8 * k)

/-- A position on the stack, as a number of elements. -/
theorem signExtend_of_nonneg {pos : BitVec 32} (h : 0 ≤ pos.toInt) :
    pos.signExtend 64 = BitVec.ofNat 64 pos.toNat ∧ pos.toNat < 2 ^ 31 := by
  have hmsb : pos.msb = false := by
    rw [BitVec.msb_eq_toInt]
    exact decide_eq_false (Int.not_lt.mpr h)
  constructor
  · rw [BitVec.signExtend_eq_setWidth_of_msb_false hmsb, BitVec.ofNat_toNat]
  · have hlt := BitVec.msb_eq_false_iff_two_mul_lt.mp hmsb
    omega

theorem getElem?_map_range {n i : ℕ} {f : ℕ → BitVec 64} {off : BitVec 64}
    (h : ((List.range n).map f)[i]? = some off) : off = f i := by
  obtain ⟨hlt, rfl⟩ := List.getElem?_eq_some_iff.mp h
  rw [List.getElem_map, List.getElem_range]

/-- What holds of every argument register with the slot of its position holds of the register and
the slot at any position. -/
theorem args_slot {Reg State : Type} {v n i : ℕ} {regs : List Reg} {r : Reg → State → BitVec v}
    {slot : ℕ → BitVec 64} {S : Reg → BitVec 64 → Prop}
    (hall : ∀ p ∈ regs.zipIdx, S p.1 (slot p.2)) {f : State → BitVec v}
    (h : (regs.map r)[i]? = some f) {off : BitVec 64}
    (hoff : ((List.range n).map slot)[i]? = some off) : ∃ q, f = r q ∧ S q off := by
  rw [List.getElem?_map] at h
  obtain ⟨q, hq, rfl⟩ := Option.map_eq_some_iff.mp h
  rw [getElem?_map_range hoff]
  exact ⟨q, rfl, hall _ (List.mk_mem_zipIdx_iff_getElem?.mpr hq)⟩

/-! ## The layout of a frame -/

/-- Where the slots are: the base pointer `start` bytes into the frame and the return address above
it, which have `size` bytes, and the offsets of the argument registers from the base pointer. -/
structure SlotLayout where
  start : BitVec 64
  size : ℕ
  size_le : size ≤ 2 ^ 32
  ints : List (BitVec 64)
  flts : List (BitVec 64)

/-- The accessors of a bridge follow a layout. -/
structure Bridge.LaidOut {State : Type} (b : Bridge State) (l : SlotLayout) : Prop where
  int_length : b.intArgs.length = l.ints.length
  flt_length : b.fltArgs.length = l.flts.length
  int : ∀ handle i off, l.ints[i]? = some off →
    b.getIntRegAddr handle (BitVec.ofNat 32 i) = handle.basePointer + off
  flt : ∀ handle i off, l.flts[i]? = some off →
    b.getFltRegAddr handle (BitVec.ofNat 32 i) = handle.basePointer + off
  stack : ∀ handle (pos : BitVec 32), 0 ≤ pos.toInt → b.getStackAddr handle pos =
    handle.basePointer - l.start + BitVec.ofNat 64 (l.size + 8 * pos.toNat)
  size : b.frameSize + b.linkSize = l.size

namespace SlotLayout

variable {l : SlotLayout} {e : Extent 64} {base : Addr 64}

/-- An extent of the frame that no slot of an argument register meets. -/
def NoSlot (l : SlotLayout) (e : Extent 64) : Prop :=
  Within l.start l.size e ∧ (∀ off ∈ l.ints, Apart (off, 8) e) ∧ ∀ off ∈ l.flts, Apart (off, 16) e

instance (l : SlotLayout) (e : Extent 64) : Decidable (l.NoSlot e) :=
  -- the offsets in the lists are tried, not all offsets
  letI := List.decidableBAll (fun off => Apart (off, 8) e) l.ints
  letI := List.decidableBAll (fun off => Apart (off, 16) e) l.flts
  inferInstanceAs (Decidable (_ ∧ _ ∧ _))

/-- Stack positions follow the frame and the return address. -/
theorem stack_disjoint (h : Within l.start l.size e) {pos : BitVec 32} (hpos : 0 ≤ pos.toInt) :
    RangesDisjoint (base + e.1) e.2
      (base - l.start + BitVec.ofNat 64 (l.size + 8 * pos.toNat)) 8 := by
  have hlt := (signExtend_of_nonneg hpos).2
  have hsize := l.size_le
  exact h.disjoint_above (Nat.le_add_right _ _) (by omega) base

end SlotLayout

namespace Bridge

variable {State : Type} {b : Bridge State} {l : SlotLayout} {e : Extent 64} {a : Addr 64}
  {handle : FunchookArgHandle 64}

theorem LaidOut.not_slot (hl : b.LaidOut l) (h : l.NoSlot e)
    (ha : InRange (handle.basePointer + e.1) e.2 a) : ¬ b.Slot handle a := by
  rintro (⟨i, hi, hslot⟩ | ⟨i, hi, hslot⟩ | ⟨pos, hpos, hslot⟩)
  · rw [hl.int_length] at hi
    rw [hl.int handle i _ (List.getElem?_eq_getElem hi)] at hslot
    exact (h.2.1 _ (List.getElem_mem hi)).disjoint handle.basePointer a hslot ha
  · rw [hl.flt_length] at hi
    rw [hl.flt handle i _ (List.getElem?_eq_getElem hi)] at hslot
    exact (h.2.2 _ (List.getElem_mem hi)).disjoint handle.basePointer a hslot ha
  · rw [hl.stack handle pos hpos] at hslot
    exact SlotLayout.stack_disjoint h.1 hpos a ha hslot

/-- The bridge saves a value in the frame, outside the slots, and loads it again. -/
def Saved (b : Bridge State) (l : SlotLayout) (base back : State → Addr 64)
    (f : State → BitVec 64) : Prop :=
  ∃ off, l.NoSlot (off, 8) ∧ (∀ s, readWord 8 (b.mem (b.enter s)) (base s + off) = f s) ∧
    ∀ s, f (b.exit s) = readWord 8 (b.mem s) (back s + off)

/-- The bridge itself does not change a register. -/
def Untouched (b : Bridge State) (f : State → BitVec 64) : Prop :=
  (∀ s, f (b.enter s) = f s) ∧ ∀ s, f (b.exit s) = f s

/-- What the code of a bridge does with its frame: `base` is where it is when the bridge is entered,
and `back` where the code looks for it when the call has returned. -/
structure Framed (b : Bridge State) (l : SlotLayout) (base back : State → Addr 64) : Prop where
  laidOut : b.LaidOut l
  transit : ∀ s, b.firstArg (b.enter s) = b.transit s
  secondArg : ∀ s, b.secondArg (b.enter s) = base s
  start : ∀ s, base s - l.start = b.sp s - BitVec.ofNat 64 b.frameSize
  intSaved : ∀ s (i : ℕ) (r : State → BitVec 64) off, b.intArgs[i]? = some r →
    l.ints[i]? = some off → readWord 8 (b.mem (b.enter s)) (base s + off) = r s
  fltSaved : ∀ s (i : ℕ) (r : State → BitVec 128) off, b.fltArgs[i]? = some r →
    l.flts[i]? = some off → readWord 16 (b.mem (b.enter s)) (base s + off) = r s
  stackKept : ∀ s n, n < 2 ^ 31 → readWord 8 (b.mem (b.enter s))
    (base s - l.start + BitVec.ofNat 64 (l.size + 8 * n)) = readWord 8 (b.mem s)
      (base s - l.start + BitVec.ofNat 64 (l.size + 8 * n))
  backEq : ∀ s r, (∀ f ∈ b.calleeSaved, f r = f (b.enter s)) →
    b.sp r = b.sp (b.enter s) + BitVec.ofNat 64 b.linkSize → back r = base s
  intLoaded : ∀ s (i : ℕ) (r : State → BitVec 64) off, b.intArgs[i]? = some r →
    l.ints[i]? = some off → r (b.exit s) = readWord 8 (b.mem s) (back s + off)
  fltLoaded : ∀ s (i : ℕ) (r : State → BitVec 128) off, b.fltArgs[i]? = some r →
    l.flts[i]? = some off → r (b.exit s) = readWord 16 (b.mem s) (back s + off)
  exitMem : ∀ s, b.mem (b.exit s) = b.mem s
  exitSp : ∀ s, b.sp (b.exit s) = back s - l.start + BitVec.ofNat 64 b.frameSize
  exitPc : ∀ s, b.pc (b.exit s) = b.result s
  returnAddr : b.Saved l base back b.returnAddr
  calleeSaved : ∀ f ∈ b.calleeSaved, b.Saved l base back f ∨ b.Untouched f
  kept : ∀ f ∈ b.kept, b.Saved l base back f

namespace Framed

variable {base back : State → Addr 64} {P : Platform 64} {fh : FunchookT 64}
  {callback : Addr 64 → FunchookInfo 64 → FunchookInfo 64} {entry returned : State}
  {call : HookCall 64}

/-- **What the prehook leaves alone.** A word of the frame that is no slot has after the call the
value that it had before. -/
theorem readWord_returned (hf : b.Framed l base back)
    (hreturns : b.Returns P fh callback entry returned call) {off : BitVec 64}
    (h : l.NoSlot (off, 8)) : readWord 8 (b.mem returned) (base entry + off) =
      readWord 8 (b.mem (b.enter entry)) (base entry + off) := by
  have hhandle := funchookHookCaller_basePointer hreturns.called
  rw [hf.secondArg] at hhandle
  apply readWord_congr (by decide)
  intro a ha
  apply hreturns.mem
  · show InRange _ (b.frameSize + b.linkSize) a
    rw [hf.laidOut.size, ← hf.start]
    exact h.1.inRange (Nat.le_trans l.size_le (by decide)) ha
  · apply hf.laidOut.not_slot h
    rw [hhandle]
    exact ha

theorem back_eq (hf : b.Framed l base back)
    (hreturns : b.Returns P fh callback entry returned call) : back returned = base entry :=
  hf.backEq entry returned hreturns.calleeSaved hreturns.sp

/-- A value that is saved outside the slots is restored. -/
theorem saved_restored (hf : b.Framed l base back)
    (hreturns : b.Returns P fh callback entry returned call) {f : State → BitVec 64}
    (h : b.Saved l base back f) : f (b.exit returned) = f entry := by
  obtain ⟨off, hslot, hsaved, hloaded⟩ := h
  rw [hloaded, hf.back_eq hreturns, hf.readWord_returned hreturns hslot, hsaved]

theorem exit_sp (hf : b.Framed l base back)
    (hreturns : b.Returns P fh callback entry returned call) :
    b.sp (b.exit returned) = b.sp entry := by
  rw [hf.exitSp, hf.back_eq hreturns, hf.start, BitVec.sub_add_cancel]

/-- A position on the stack is behind the frame, at the stack position of the callee. -/
theorem stack_addr (hf : b.Framed l base back)
    (hreturns : b.Returns P fh callback entry returned call) {pos : BitVec 32}
    (hpos : 0 ≤ pos.toInt) : b.getStackAddr call.info.argHandle pos =
      base entry - l.start + BitVec.ofNat 64 (l.size + 8 * pos.toNat) ∧
    b.getStackAddr call.info.argHandle pos =
      b.sp entry + BitVec.ofNat 64 b.linkSize + 8 * pos.signExtend 64 := by
  have haddr := hf.laidOut.stack call.info.argHandle pos hpos
  rw [funchookHookCaller_basePointer hreturns.called, hf.secondArg] at haddr
  refine ⟨haddr, ?_⟩
  rw [haddr, hf.start, ← hf.laidOut.size, (signExtend_of_nonneg hpos).1, BitVec.ofNat_add,
    BitVec.ofNat_add, BitVec.ofNat_mul]
  grind

/-- **Forwarding.** The accessors, the stores and the loads of a framed bridge agree, so it hands
the arguments on. -/
theorem forwards (hf : b.Framed l base back)
    (hreturns : b.Returns P fh callback entry returned call) :
    b.Forwarded entry returned call := by
  have hback := hf.back_eq hreturns
  have hhandle : call.info.argHandle.basePointer = base entry :=
    (funchookHookCaller_basePointer hreturns.called).trans (hf.secondArg entry)
  have hint : ∀ i r, b.intArgs[i]? = some r → ∃ off, l.ints[i]? = some off ∧
      b.getIntRegAddr call.info.argHandle (BitVec.ofNat 32 i) = base entry + off := by
    intro i r hr
    have hlt := (List.getElem?_eq_some_iff.mp hr).1
    rw [hf.laidOut.int_length] at hlt
    refine ⟨l.ints[i], List.getElem?_eq_getElem hlt, ?_⟩
    rw [hf.laidOut.int _ i _ (List.getElem?_eq_getElem hlt), hhandle]
  have hflt : ∀ i r, b.fltArgs[i]? = some r → ∃ off, l.flts[i]? = some off ∧
      b.getFltRegAddr call.info.argHandle (BitVec.ofNat 32 i) = base entry + off := by
    intro i r hr
    have hlt := (List.getElem?_eq_some_iff.mp hr).1
    rw [hf.laidOut.flt_length] at hlt
    refine ⟨l.flts[i], List.getElem?_eq_getElem hlt, ?_⟩
    rw [hf.laidOut.flt _ i _ (List.getElem?_eq_getElem hlt), hhandle]
  constructor
  case transit => exact hf.transit entry
  case intSeen =>
    intro i r hr
    obtain ⟨off, hoff, haddr⟩ := hint i r hr
    rw [haddr]
    exact hf.intSaved entry i r off hr hoff
  case fltSeen =>
    intro i r hr
    obtain ⟨off, hoff, haddr⟩ := hflt i r hr
    rw [haddr]
    exact hf.fltSaved entry i r off hr hoff
  case stackSeen =>
    intro pos hpos
    obtain ⟨hframe, hstack⟩ := hf.stack_addr hreturns hpos
    rw [← hstack, hframe]
    exact hf.stackKept entry pos.toNat (signExtend_of_nonneg hpos).2
  case intArg =>
    intro i r hr
    obtain ⟨off, hoff, haddr⟩ := hint i r hr
    rw [haddr, hf.exitMem, ← hback]
    exact hf.intLoaded returned i r off hr hoff
  case fltArg =>
    intro i r hr
    obtain ⟨off, hoff, haddr⟩ := hflt i r hr
    rw [haddr, hf.exitMem, ← hback]
    exact hf.fltLoaded returned i r off hr hoff
  case stackArg =>
    intro pos hpos
    rw [hf.exit_sp hreturns]
    exact (hf.stack_addr hreturns hpos).2
  case mem => exact hf.exitMem returned
  case sp => exact hf.exit_sp hreturns
  case returnAddr => exact hf.saved_restored hreturns hf.returnAddr
  case calleeSaved =>
    intro f hmem
    rcases hf.calleeSaved f hmem with hsaved | huntouched
    · exact hf.saved_restored hreturns hsaved
    · rw [huntouched.2, hreturns.calleeSaved f hmem, huntouched.1]
  case kept =>
    intro f hmem
    exact hf.saved_restored hreturns (hf.kept f hmem)
  case target => rw [hf.exitPc, hreturns.result]

end Framed

end Bridge

end Funchook
