import Funchook.ArchX86
import Funchook.TrampolineArm64

/-!
# Builds for AArch64

A build fixes what `arch_arm64.c` leaves open: the disassembler, the page size of the operating
system, the function resolver and the address of the prehook bridge. A page holds one entry, at
its boundary, and `funchook_page_avail` is the constant 1.
-/

namespace Funchook.Arm64

open ByteMemory
open X86 (PageSize)

structure Build where
  disasm : Disasm
  resolveFunc : Mem 64 → Addr 64 → Addr 64
  pageSize : PageSize
  /-- the address of `funchook_hook_caller_asm` -/
  hookCallerAsm : Addr 64

theorem funchookFixCode_transit_length (hookCallerAsm slot : Addr 64) (entry : FunchookEntry 64) :
    (funchookFixCode hookCallerAsm slot entry).transit.length = entry.transit.length :=
  overwrite_length ..

def platform (b : Build) : Platform 64 where
  IpDisplacement := Unit
  insnSize := 4
  maxPatchCodeSize := maxPatchCodeSize
  transitByteSize := 4 * transitCodeSize
  trampolineByteSize := 4 * trampolineSize
  pageSize := b.pageSize.toNat
  entriesOffset := 0
  entrySize := entrySize
  trampolineOffset := trampolineOffset
  numEntriesInPage := 1
  funchookResolveFunc := b.resolveFunc
  funchookMakeTrampoline := fun m func =>
    (funchookMakeTrampoline b.disasm m func).map fun ctx => ((), ctx.trampolineBytes)
  funchookPageAvail := fun _ _ _ => true
  funchookFixCode := fun slot entry _ => funchookFixCode b.hookCallerAsm slot entry
  pageSize_le := by
    have := b.pageSize.bounds
    omega
  numEntries_pos := Nat.one_pos
  entries_fit := by
    have := b.pageSize.bounds
    rw [entrySize_eq]
    omega
  transit_fits := by decide
  trampoline_fits := by decide
  fixCode_targetFunc := fun _ _ _ => rfl
  fixCode_oldCode := fun _ _ _ => rfl
  fixCode_transit_length := fun _ _ _ => funchookFixCode_transit_length ..
  fixCode_trampoline_length := fun _ _ _ => rfl
  fixCode_patchCodeSize := fun _ _ h => h

end Funchook.Arm64
