import Funchook.Lib.ByteMemory

/-!
# Data model of the library (`funchook.h`, `funchook_internal.h`)

Error codes, the parameters of a prepare, the entry and page records, the handle and the part
of the process the library acts on. A record of `funchook_entry_t` keeps its pointers and its
code arrays as fields; the two arrays that are executed, `transit` and `trampoline`, are also
mirrored into the byte memory by the code that fills an entry. What depends on the processor
and on the operating system is collected in `Platform`, whose fields are instantiated from
`arch_x86.c` and `arch_arm64.c`.
-/

namespace Funchook

open ByteMemory

abbrev Addr (w : ℕ) := BitVec w

/-! ## Error codes -/

abbrev ErrorCode := Int

def errorInternalError : ErrorCode := -1
def errorSuccess : ErrorCode := 0
def errorOutOfMemory : ErrorCode := 1
def errorAlreadyInstalled : ErrorCode := 2
def errorDisassembly : ErrorCode := 3
def errorIpRelativeOffset : ErrorCode := 4
def errorCannotFixIpRelative : ErrorCode := 5
def errorFoundBackJump : ErrorCode := 6
def errorTooShortInstructions : ErrorCode := 7
def errorMemoryAllocation : ErrorCode := 8
def errorMemoryFunction : ErrorCode := 9
def errorNotInstalled : ErrorCode := 10
def errorNoAvailableRegisters : ErrorCode := 11
def errorNoSpaceNearTargetAddr : ErrorCode := 12

/-- A failed call: its code and the text it passed to `funchook_set_error_message`. -/
structure Failure where
  code : ErrorCode
  message : String
  deriving DecidableEq, Repr

theorem exceptMap_ok {ε α β : Type} {f : α → β} {x : Except ε α} {b : β} (h : x.map f = .ok b) :
    ∃ a, x = .ok a ∧ f a = b := by
  cases x with
  | error e => cases h
  | ok a => exact ⟨a, rfl, Except.ok.inj h⟩

theorem exceptBind_ok {ε α β : Type} {x : Except ε α} {f : α → Except ε β} {b : β}
    (h : x >>= f = .ok b) : ∃ a, x = .ok a ∧ f a = .ok b := by
  cases x with
  | error e => cases h
  | ok a => exact ⟨a, rfl, h⟩

/-- The text for a 32-bit value that `%08x` prints. -/
def fmtHex8 (v : BitVec 32) : String :=
  let digits := Nat.toDigits 16 v.toNat
  String.ofList (List.replicate (8 - digits.length) '0' ++ digits)

/-! ## Rounding macros -/

def roundDown {w : ℕ} (num unit : BitVec w) : BitVec w := num &&& ~~~(unit - 1)

def roundUp {w : ℕ} (num unit : BitVec w) : BitVec w := (num + unit - 1) &&& ~~~(unit - 1)

/-! ## Records -/

variable {w : ℕ}

/-- `funchook_params_t`. -/
structure FunchookParams (w : ℕ) where
  hookFunc : Addr w
  prehook : Addr w
  userData : Addr w
  flags : BitVec 32
  deriving DecidableEq, Repr

/-- `funchook_entry_t`, with every code array as its bytes. -/
structure FunchookEntry (w : ℕ) where
  transit : List Byte
  originalTargetFunc : Addr w
  targetFunc : Addr w
  hookFunc : Addr w
  prehook : Addr w
  userData : Addr w
  flags : BitVec 32
  patchCodeSize : BitVec 32
  trampoline : List Byte
  oldCode : List Byte
  newCode : List Byte
  deriving DecidableEq, Repr

/-- The next multiple of `n`, from an offset on. -/
def alignTo (n offset : ℕ) : ℕ := (offset + n - 1) / n * n

/-- `offsetof(funchook_entry_t, trampoline)`, for the sizes of a pointer and of `transit`: between
the two are five pointers and two numbers of 32 bits. -/
def offsetofTrampoline (ptrSize transitByteSize : ℕ) : ℕ :=
  alignTo ptrSize transitByteSize + 5 * ptrSize + 2 * 4

/-- `sizeof(funchook_entry_t)`, for the sizes of a pointer and of the code arrays; `old_code` and
`new_code` have one size. -/
def sizeofEntry (ptrSize transitByteSize trampolineByteSize patchByteSize : ℕ) : ℕ :=
  alignTo ptrSize
    (offsetofTrampoline ptrSize transitByteSize + trampolineByteSize + 2 * patchByteSize)

/-- `entry->hook_func ? entry->hook_func : entry->trampoline` -/
def hookOrTrampoline (trampolineAddr hook : Addr w) : Addr w :=
  if hook ≠ 0 then hook else trampolineAddr

/-- Where the calls of the target of an entry go, for the offset of its trampoline. -/
def hookOf (trampolineOffset : ℕ) (slot : Addr w) (e : FunchookEntry w) : Addr w :=
  hookOrTrampoline (slot + BitVec.ofNat w trampolineOffset) e.hookFunc

/-- Protection of a page that the library mapped for its own use. -/
inductive PageProt where
  | readWrite
  | readExec
  deriving DecidableEq, Repr

/-- `funchook_page_t`: the entries in use, in slot order, so that `used` is their number. The
protection is the one the operating system holds for the page. -/
structure FunchookPage (w : ℕ) where
  addr : Addr w
  entries : List (FunchookEntry w)
  prot : PageProt
  deriving DecidableEq, Repr

def FunchookPage.used (p : FunchookPage w) : ℕ := p.entries.length

/-- `funchook_t`; `pageList` starts with the page allocated last. -/
structure FunchookT (w : ℕ) where
  installed : Bool
  pageList : List (FunchookPage w)
  errorMessage : String
  deriving DecidableEq, Repr

def funchookMaxErrorMessageLen : ℕ := 200

/-- `funchook_set_error_message`: `vsnprintf` keeps one byte for the terminator. -/
def FunchookT.setErrorMessage (fh : FunchookT w) (message : String) : FunchookT w :=
  { fh with errorMessage := String.ofList (message.toList.take (funchookMaxErrorMessageLen - 1)) }

/-- The entries of a handle in the order the loops of install and uninstall visit them. -/
def FunchookT.entries (fh : FunchookT w) : List (FunchookEntry w) :=
  fh.pageList.flatMap FunchookPage.entries

@[simp] theorem setErrorMessage_installed (fh : FunchookT w) (m : String) :
    (fh.setErrorMessage m).installed = fh.installed := rfl

@[simp] theorem setErrorMessage_pageList (fh : FunchookT w) (m : String) :
    (fh.setErrorMessage m).pageList = fh.pageList := rfl

/-! ## The process -/

/-- Content of every address, and which addresses are mapped. -/
structure World (w : ℕ) where
  bytes : Mem w
  mapped : Addr w → Bool

/-- The effect of mapping `n` zero-filled bytes at `p`. -/
def World.mapPage (s : World w) (p : Addr w) (n : ℕ) : World w where
  bytes := fun a => if InRange p n a then 0 else s.bytes a
  mapped := fun a => decide (InRange p n a) || s.mapped a

/-- The effect of unmapping the `n` bytes at `p`. -/
def World.unmapPage (s : World w) (p : Addr w) (n : ℕ) : World w where
  bytes := s.bytes
  mapped := fun a => !decide (InRange p n a) && s.mapped a

/-- No byte of the range is mapped: what `mmap` and `VirtualAlloc` promise for a new page. -/
def World.Fresh (s : World w) (p : Addr w) (n : ℕ) : Prop := ∀ a, InRange p n a → s.mapped a = false

theorem mapPage_bytes_of_mapped {s : World w} {p : Addr w} {n : ℕ} (hf : s.Fresh p n)
    {a : Addr w} (ha : s.mapped a = true) : (s.mapPage p n).bytes a = s.bytes a := by
  refine if_neg fun h => ?_
  rw [hf a h] at ha
  cases ha

theorem mapPage_mapped_of_mapped {s : World w} {a : Addr w} (ha : s.mapped a = true)
    (p : Addr w) (n : ℕ) : (s.mapPage p n).mapped a = true := by
  simp [World.mapPage, ha]

theorem mapPage_mapped_of_inRange (s : World w) {p : Addr w} {n : ℕ} {a : Addr w}
    (ha : InRange p n a) : (s.mapPage p n).mapped a = true := by
  simp [World.mapPage, ha]

/-- Mapping and unmapping a fresh page leaves the set of mapped bytes as it was. -/
theorem unmapPage_mapPage_mapped {s : World w} {p : Addr w} {n : ℕ} (hf : s.Fresh p n) :
    ((s.mapPage p n).unmapPage p n).mapped = s.mapped := by
  funext a
  by_cases h : InRange p n a
  · simp [World.mapPage, World.unmapPage, h, hf a h]
  · simp [World.mapPage, World.unmapPage, h]

/-! ## Answers of the operating system -/

/-- What one call of the memory layer answers; a failing call brings the text it reports. -/
inductive OsAnswer where
  | ok
  | fail (message : String)
  deriving DecidableEq, Repr

/-- The answer to the next call and the answers left; an exhausted list answers `ok`. -/
def nextAnswer : List OsAnswer → OsAnswer × List OsAnswer
  | [] => (.ok, [])
  | a :: as => (a, as)

/-! ## Platform -/

/-- The parts of the library chosen by processor and operating system: sizes, the layout of
`funchook_page_t` and the functions of `arch_*.c`. -/
structure Platform (w : ℕ) where
  /-- `ip_displacement_t` -/
  IpDisplacement : Type
  /-- `sizeof(insn_t)` -/
  insnSize : ℕ
  /-- `MAX_PATCH_CODE_SIZE` -/
  maxPatchCodeSize : ℕ
  /-- `TRANSIT_CODE_SIZE * sizeof(insn_t)` -/
  transitByteSize : ℕ
  /-- `TRAMPOLINE_BYTE_SIZE` -/
  trampolineByteSize : ℕ
  pageSize : ℕ
  /-- `offsetof(funchook_page_t, entries)` -/
  entriesOffset : ℕ
  /-- `sizeof(funchook_entry_t)` -/
  entrySize : ℕ
  /-- `offsetof(funchook_entry_t, trampoline)` -/
  trampolineOffset : ℕ
  numEntriesInPage : ℕ
  funchookResolveFunc : Mem w → Addr w → Addr w
  funchookMakeTrampoline : Mem w → Addr w → Except Failure (IpDisplacement × List Byte)
  /-- `funchook_page_avail` for the slot at the first address and the function at the second -/
  funchookPageAvail : Addr w → Addr w → IpDisplacement → Bool
  /-- `funchook_fix_code` on the entry stored at the address -/
  funchookFixCode : Addr w → FunchookEntry w → IpDisplacement → FunchookEntry w
  pageSize_le : pageSize ≤ 2 ^ w
  numEntries_pos : 0 < numEntriesInPage
  entries_fit : entriesOffset + numEntriesInPage * entrySize ≤ pageSize
  transit_fits : transitByteSize ≤ trampolineOffset
  trampoline_fits : trampolineOffset + trampolineByteSize ≤ entrySize
  fixCode_targetFunc : ∀ a e d, (funchookFixCode a e d).targetFunc = e.targetFunc
  fixCode_oldCode : ∀ a e d, (funchookFixCode a e d).oldCode = e.oldCode
  fixCode_transit_length : ∀ a e d, (funchookFixCode a e d).transit.length = e.transit.length
  fixCode_trampoline_length : ∀ a e d,
    (funchookFixCode a e d).trampoline.length = e.trampoline.length
  fixCode_patchCodeSize : ∀ {m func d trampoline a e},
    funchookMakeTrampoline m func = .ok (d, trampoline) → e.targetFunc = func →
      e.patchCodeSize.toNat ≤ maxPatchCodeSize →
        (funchookFixCode a e d).patchCodeSize.toNat ≤ maxPatchCodeSize

namespace Platform

variable (P : Platform w)

/-- `&page->entries[idx]` -/
def slotAddr (page : Addr w) (idx : ℕ) : Addr w :=
  page + BitVec.ofNat w (P.entriesOffset + idx * P.entrySize)

/-- `entry->trampoline` as an address -/
def trampolineAddr (slot : Addr w) : Addr w := slot + BitVec.ofNat w P.trampolineOffset

/-- `entry->patch_code_size * sizeof(insn_t)` -/
def patchCodeByteSize (e : FunchookEntry w) : ℕ := e.patchCodeSize.toNat * P.insnSize

/-- The `memcpy` of install for one entry. -/
def newPatch (e : FunchookEntry w) : Patch w :=
  ⟨e.targetFunc, e.newCode.take (P.patchCodeByteSize e)⟩

/-- The `memcpy` of uninstall for one entry. -/
def oldPatch (e : FunchookEntry w) : Patch w :=
  ⟨e.targetFunc, e.oldCode.take (P.patchCodeByteSize e)⟩

/-- `a` is one of the code bytes of `e`'s target that install overwrites. -/
def TargetByte (e : FunchookEntry w) (a : Addr w) : Prop :=
  InRange e.targetFunc (P.patchCodeByteSize e) a

instance (e : FunchookEntry w) (a : Addr w) : Decidable (P.TargetByte e a) :=
  inferInstanceAs (Decidable (InRange _ _ _))

end Platform

end Funchook
