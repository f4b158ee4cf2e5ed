import Funchook.EntrySlots

/-!
# The prehook bridge (`funchook_hook_caller`)

The bridge hands `funchook_hook_caller` the address of a transit code. The transit code is the first
member of an entry, so the function takes that address for the entry, calls the prehook with a
`funchook_info_t` filled from it, and returns the hook that the callback leaves there. A read of an
entry through a pointer is a search for the entry whose slot starts at the address; no two entries
of a handle share a slot, so there is one at most.
-/

namespace Funchook

open ByteMemory

variable {w : ℕ} {P : Platform w}

/-- `funchook_arg_handle_t` -/
structure FunchookArgHandle (w : ℕ) where
  basePointer : Addr w
  flags : BitVec 32
  deriving DecidableEq, Repr

/-- `funchook_info_t` -/
structure FunchookInfo (w : ℕ) where
  originalTargetFunc : Addr w
  targetFunc : Addr w
  trampolineFunc : Addr w
  hookFunc : Addr w
  userData : Addr w
  argHandle : FunchookArgHandle w
  deriving DecidableEq, Repr

/-- `offsetof(funchook_entry_t, transit)` -/
def transitOffset : ℕ := 0

/-- The entry that a `funchook_entry_t *` points to. -/
def entryAtAddr (P : Platform w) (pages : List (FunchookPage w)) (addr : Addr w) :
    Option (FunchookEntry w) :=
  pages.findSome? fun page => page.entries.zipIdx.findSome? fun slot =>
    if P.slotAddr page.addr slot.2 = addr then some slot.1 else none

/-- A run of `funchook_hook_caller`: the callback it calls with which `info`, and its result. -/
structure HookCall (w : ℕ) where
  prehook : Addr w
  info : FunchookInfo w
  result : Addr w
  deriving DecidableEq, Repr

/-- `funchook_hook_caller`. The callback at an address maps the `info` it is given to the one it
leaves behind; `none` where `transit_addr` belongs to no entry. -/
def funchookHookCaller (P : Platform w) (fh : FunchookT w)
    (callback : Addr w → FunchookInfo w → FunchookInfo w) (transitAddr basePointer : Addr w) :
    Option (HookCall w) :=
  let addr := transitAddr - BitVec.ofNat w transitOffset
  (entryAtAddr P fh.pageList addr).map fun entry =>
    let argHandle := ⟨basePointer, entry.flags⟩
    let info := ⟨entry.originalTargetFunc, entry.targetFunc, P.trampolineAddr addr, entry.hookFunc,
      entry.userData, argHandle⟩
    let left := callback entry.prehook info
    ⟨entry.prehook, info, if left.hookFunc ≠ 0 then left.hookFunc else P.trampolineAddr addr⟩

/-! ## The entry that is found -/

theorem entryAt_of_entryAtAddr {fh : FunchookT w} {addr : Addr w} {e : FunchookEntry w}
    (h : entryAtAddr P fh.pageList addr = some e) : EntryAt P fh addr e := by
  obtain ⟨page, hpage, hfind⟩ := List.exists_of_findSome?_eq_some h
  obtain ⟨slot, hslot, heq⟩ := List.exists_of_findSome?_eq_some hfind
  split at heq
  · rename_i haddr
    cases heq
    exact ⟨page, hpage, slot.2, List.mk_mem_zipIdx_iff_getElem?.mp hslot, haddr.symm⟩
  · cases heq

theorem entryAtAddr_isSome {fh : FunchookT w} {slot : Addr w} {e : FunchookEntry w}
    (h : EntryAt P fh slot e) : (entryAtAddr P fh.pageList slot).isSome := by
  obtain ⟨page, hpage, idx, hidx, rfl⟩ := h
  rw [entryAtAddr, List.findSome?_isSome_iff]
  refine ⟨page, hpage, ?_⟩
  rw [List.findSome?_isSome_iff]
  exact ⟨(e, idx), List.mk_mem_zipIdx_iff_getElem?.mpr hidx, by simp⟩

/-- No two entries share a slot. -/
def SlotsUnique (P : Platform w) (fh : FunchookT w) : Prop :=
  ∀ slot e e', EntryAt P fh slot e → EntryAt P fh slot e' → e = e'

theorem PagesInv.slotsUnique {st : HandleState w} (hinv : PagesInv P st)
    (hsize : 0 < P.entrySize) : SlotsUnique P st.fh := by
  intro slot e e' he he'
  rcases hinv.entries_apart he he' with ⟨-, heq⟩ | hapart
  · exact heq
  · have hin : InRange slot P.entrySize slot := by
      rw [InRange, BitVec.sub_self]
      exact hsize
    exact absurd hin (hapart slot hin)

/-- **The entry is recovered.** The address of a slot leads to the entry in it and to no other. -/
theorem entryAtAddr_of_entryAt {fh : FunchookT w} (hunique : SlotsUnique P fh) {slot : Addr w}
    {e : FunchookEntry w} (h : EntryAt P fh slot e) : entryAtAddr P fh.pageList slot = some e := by
  obtain ⟨e', he'⟩ := Option.isSome_iff_exists.mp (entryAtAddr_isSome h)
  rw [he', hunique slot e e' h (entryAt_of_entryAtAddr he')]

/-- What `funchook_hook_caller` passes to the prehook of the entry in `slot`. -/
def entryInfo (P : Platform w) (slot : Addr w) (e : FunchookEntry w) (basePointer : Addr w) :
    FunchookInfo w where
  originalTargetFunc := e.originalTargetFunc
  targetFunc := e.targetFunc
  trampolineFunc := P.trampolineAddr slot
  hookFunc := e.hookFunc
  userData := e.userData
  argHandle := ⟨basePointer, e.flags⟩

theorem funchookHookCaller_of_entryAt {fh : FunchookT w} (hunique : SlotsUnique P fh)
    {slot : Addr w} {e : FunchookEntry w} (h : EntryAt P fh slot e)
    (callback : Addr w → FunchookInfo w → FunchookInfo w) (basePointer : Addr w) :
    funchookHookCaller P fh callback slot basePointer =
      some ⟨e.prehook, entryInfo P slot e basePointer,
        if (callback e.prehook (entryInfo P slot e basePointer)).hookFunc ≠ 0 then
          (callback e.prehook (entryInfo P slot e basePointer)).hookFunc
        else P.trampolineAddr slot⟩ := by
  have haddr : slot - BitVec.ofNat w transitOffset = slot := BitVec.sub_zero slot
  rw [funchookHookCaller, haddr, entryAtAddr_of_entryAt hunique h]
  rfl

end Funchook
