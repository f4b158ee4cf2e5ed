import Funchook.Internal

/-!
# Operations on a handle (`funchook.c`)

`funchookCreate`, `getPage`, `funchookPrepareInternal`, `funchookInstallInternal`,
`funchookUninstallInternal` and `funchookDestroyInternal` follow the functions of the same
names. Calls into the memory layer are answered by data that the caller of an operation
supplies: the result of `funchook_page_alloc`, and for every other call an `OsAnswer`. The loops
of install and uninstall stop at the first failing call and keep what was done before it, as the
early returns of the source do. Logging and instruction cache flushes have no effect here.

An operation yields `none` where the process is killed: a prepare that fills a slot of a page
the operating system holds as read-and-execute.
-/

namespace Funchook

open ByteMemory

variable {w : ℕ} (P : Platform w)

/-- What a call returns, with the handle and the process after it. -/
structure CallResult (w : ℕ) where
  rv : ErrorCode
  fh : FunchookT w
  world : World w

/-- `funchook_create_internal`, when `funchook_alloc` succeeds: the handle is zero-filled. -/
def funchookCreate : FunchookT w := ⟨false, [], ""⟩

/-! ## Prepare -/

/-- The answers one prepare gets from the memory layer: what `funchook_page_alloc` returns, and
how the call of `funchook_page_free` ends that gives a rejected page back. -/
structure AllocAnswer (w : ℕ) where
  alloc : Except Failure (Addr w)
  free : OsAnswer

/-- The outcome of `get_page`: the page list and the index of the page to fill. -/
inductive GetPageResult (w : ℕ) where
  | fail (f : Failure) (world : World w)
  | got (pageList : List (FunchookPage w)) (idx : ℕ) (world : World w)

/-- `page->used < num_entries_in_page && funchook_page_avail(..., page->used, addr, disp)` -/
def reusable (addr : Addr w) (disp : P.IpDisplacement) (page : FunchookPage w) : Bool :=
  decide (page.used < P.numEntriesInPage) &&
    P.funchookPageAvail (P.slotAddr page.addr page.used) addr disp

/-- The text for an address that `%p` prints. -/
def fmtPtr (a : Addr w) : String := "0x" ++ String.ofList (Nat.toDigits 16 a.toNat)

def getPage (fh : FunchookT w) (s : World w) (addr : Addr w) (disp : P.IpDisplacement)
    (answer : AllocAnswer w) : GetPageResult w :=
  match fh.pageList.findIdx? (reusable P addr disp) with
  | some idx => .got fh.pageList idx s
  | none =>
    match answer.alloc with
    | .error f => .fail f s
    | .ok page =>
      let mapped := s.mapPage page P.pageSize
      if P.funchookPageAvail (P.slotAddr page 0) addr disp then
        .got (⟨page, [], .readWrite⟩ :: fh.pageList) 0 mapped
      else
        match answer.free with
        | .ok => .fail ⟨errorNoSpaceNearTargetAddr,
            "Could not allocate memory near address " ++ fmtPtr addr⟩
            (mapped.unmapPage page P.pageSize)
        | .fail message => .fail ⟨errorNoSpaceNearTargetAddr, message⟩ mapped

/-- The members filled before `funchook_fix_code`; a slot not used before is zero-filled. -/
def fillEntry (s : World w) (targetFunc func : Addr w) (params : FunchookParams w)
    (trampoline : List Byte) : FunchookEntry w where
  transit := List.replicate P.transitByteSize 0
  originalTargetFunc := targetFunc
  targetFunc := func
  hookFunc := params.hookFunc
  prehook := params.prehook
  userData := params.userData
  flags := params.flags
  patchCodeSize := BitVec.ofNat 32 P.maxPatchCodeSize
  trampoline := trampoline.take P.trampolineByteSize
  oldCode := readBytes s.bytes func (P.maxPatchCodeSize * P.insnSize)
  newCode := List.replicate (P.maxPatchCodeSize * P.insnSize) 0

/-- The executed code arrays of an entry as they stand in its slot. -/
def storeEntry (s : World w) (slot : Addr w) (e : FunchookEntry w) : World w :=
  { s with bytes := write (write s.bytes slot e.transit) (P.trampolineAddr slot) e.trampoline }

/-- `page->used++` on the page at `idx`, whose next slot holds `e`. -/
def addEntry (pages : List (FunchookPage w)) (idx : ℕ) (e : FunchookEntry w) :
    List (FunchookPage w) :=
  pages.modify idx fun page => { page with entries := page.entries ++ [e] }

/-- A prepare also writes `*target_func`, the last component. -/
structure PrepareResult (w : ℕ) extends CallResult w where
  targetFunc : Addr w

def PrepareResult.failed (fh : FunchookT w) (s : World w) (targetFunc : Addr w) (f : Failure) :
    PrepareResult w :=
  ⟨⟨f.code, fh.setErrorMessage f.message, s⟩, targetFunc⟩

def funchookPrepareInternal (fh : FunchookT w) (s : World w) (targetFunc : Addr w)
    (params : FunchookParams w) (answer : AllocAnswer w) : Option (PrepareResult w) :=
  if fh.installed then
    some (.failed fh s targetFunc
      ⟨errorAlreadyInstalled, "Could not modify already-installed funchook handle."⟩)
  else
    let func := P.funchookResolveFunc s.bytes targetFunc
    match P.funchookMakeTrampoline s.bytes func with
    | .error f => some (.failed fh s targetFunc f)
    | .ok (disp, trampoline) =>
      match getPage P fh s func disp answer with
      | .fail f world => some (.failed fh world targetFunc f)
      | .got pageList idx world =>
        match pageList[idx]? with
        | none => none
        | some page =>
          if page.prot = .readWrite then
            let slot := P.slotAddr page.addr page.used
            let entry := P.funchookFixCode slot
              (fillEntry P world targetFunc func params trampoline) disp
            some ⟨⟨errorSuccess, { fh with pageList := addEntry pageList idx entry },
              storeEntry P world slot entry⟩, P.trampolineAddr slot⟩
          else none

/-- `funchook_prepare`: the parameters hold only the hook. -/
def funchookPrepare (fh : FunchookT w) (s : World w) (targetFunc hookFunc : Addr w)
    (answer : AllocAnswer w) : Option (PrepareResult w) :=
  funchookPrepareInternal P fh s targetFunc ⟨hookFunc, 0, 0, 0⟩ answer

/-- `funchook_prepare_with_params`. -/
def funchookPrepareWithParams (fh : FunchookT w) (s : World w) (targetFunc : Addr w)
    (params : FunchookParams w) (answer : AllocAnswer w) : Option (PrepareResult w) :=
  funchookPrepareInternal P fh s targetFunc params answer

/-! ## Install and uninstall -/

/-- State of a patching loop when it stops: memory, answers left, the error it returns with. -/
structure PatchResult (w : ℕ) where
  bytes : Mem w
  answers : List OsAnswer
  error : Option String

/-- The inner loop shared by install and uninstall: for each entry `funchook_unprotect_begin`,
the `memcpy` of `code`, `funchook_unprotect_end`. -/
def patchEntries (code : FunchookEntry w → Patch w) :
    List (FunchookEntry w) → Mem w → List OsAnswer → PatchResult w
  | [], m, os => ⟨m, os, none⟩
  | e :: es, m, os =>
    match nextAnswer os with
    | (.fail message, os) => ⟨m, os, some message⟩
    | (.ok, os) =>
      let m := write m (code e).addr (code e).code
      match nextAnswer os with
      | (.fail message, os) => ⟨m, os, some message⟩
      | (.ok, os) => patchEntries code es m os

/-- State of a page loop when it stops. -/
structure PagesResult (w : ℕ) extends PatchResult w where
  pageList : List (FunchookPage w)

/-- The page loop of install. -/
def installPages : List (FunchookPage w) → Mem w → List OsAnswer → PagesResult w
  | [], m, os => ⟨⟨m, os, none⟩, []⟩
  | page :: pages, m, os =>
    match nextAnswer os with
    | (.fail message, os) => ⟨⟨m, os, some message⟩, page :: pages⟩
    | (.ok, os) =>
      let page := { page with prot := .readExec }
      let r := patchEntries P.newPatch page.entries m os
      match r.error with
      | some _ => ⟨r, page :: pages⟩
      | none =>
        let rest := installPages pages r.bytes r.answers
        { rest with pageList := page :: rest.pageList }

def funchookInstallInternal (fh : FunchookT w) (s : World w) (os : List OsAnswer) :
    CallResult w :=
  if fh.installed then ⟨errorAlreadyInstalled, fh, s⟩
  else
    let r := installPages P fh.pageList s.bytes os
    let fh := { fh with pageList := r.pageList }
    let s := { s with bytes := r.bytes }
    match r.error with
    | some message => ⟨errorMemoryFunction, fh.setErrorMessage message, s⟩
    | none => ⟨errorSuccess, { fh with installed := true }, s⟩

/-- The page loop of uninstall. The result of `funchook_page_unprotect` is ignored, but a failing
call leaves the page read-and-execute and its error text in the handle. -/
def uninstallPages : List (FunchookPage w) → Mem w → List OsAnswer → Option String →
    PagesResult w × Option String
  | [], m, os, note => (⟨⟨m, os, none⟩, []⟩, note)
  | page :: pages, m, os, note =>
    let r := patchEntries P.oldPatch page.entries m os
    match r.error with
    | some _ => (⟨r, page :: pages⟩, note)
    | none =>
      let (page, os, note) :=
        match nextAnswer r.answers with
        | (.ok, os) => ({ page with prot := .readWrite }, os, note)
        | (.fail message, os) => (page, os, some message)
      let (rest, note) := uninstallPages pages r.bytes os note
      ({ rest with pageList := page :: rest.pageList }, note)

/-- `funchook_set_error_message` for a text that may not have been reported. -/
def FunchookT.noteError (fh : FunchookT w) : Option String → FunchookT w
  | none => fh
  | some message => fh.setErrorMessage message

def funchookUninstallInternal (fh : FunchookT w) (s : World w) (os : List OsAnswer) :
    CallResult w :=
  if fh.installed then
    let (r, note) := uninstallPages P fh.pageList s.bytes os none
    let fh := ({ fh with pageList := r.pageList }).noteError note
    let s := { s with bytes := r.bytes }
    match r.error with
    | some message => ⟨errorMemoryFunction, fh.setErrorMessage message, s⟩
    | none => ⟨errorSuccess, { fh with installed := false }, s⟩
  else ⟨errorNotInstalled, fh, s⟩

/-! ## Destroy -/

/-- The page loop of destroy; a page whose `funchook_page_free` fails stays mapped. -/
def freePages : List (FunchookPage w) → World w → List OsAnswer → World w
  | [], s, _ => s
  | page :: pages, s, os =>
    match nextAnswer os with
    | (.ok, os) => freePages pages (s.unmapPage page.addr P.pageSize) os
    | (.fail _, os) => freePages pages s os

/-- `funchook_destroy_internal` on a handle; on success the handle itself is gone. -/
def funchookDestroyInternal (fh : FunchookT w) (s : World w) (os : List OsAnswer) :
    ErrorCode × World w :=
  if fh.installed then (errorAlreadyInstalled, s) else (errorSuccess, freePages P fh.pageList s os)

end Funchook
