import Funchook.HandleSpec
import Funchook.ArchX86
import Funchook.Lib.Run

/-!
# Runs of one handle, and the bytes uninstall restores

A run starts from `funchookCreate` and makes any number of prepares, installs and uninstalls, with
any answers of the memory layer. Bytes are compared with the process at the start of the run, at
the addresses mapped there, which the pages of the handle never meet because a page is mapped
where nothing was. The invariant `RestoreInv` ties the flag, the saved code of every entry and
the live bytes: outside the targets nothing changes, every entry has saved the original bytes,
and while the handle is neither installed nor left half installed all bytes are original.
-/

namespace Funchook

open ByteMemory Runs

variable {w : ℕ} {P : Platform w}

/-! ## Slots inside pages -/

theorem slot_inRange_page {page : Addr w} {idx : ℕ} (hidx : idx < P.numEntriesInPage) {a : Addr w}
    (ha : InRange (P.slotAddr page idx) P.entrySize a) : InRange page P.pageSize a := by
  refine inRange_of_inner ha ?_ P.pageSize_le
  have h1 : (idx + 1) * P.entrySize ≤ P.numEntriesInPage * P.entrySize :=
    Nat.mul_le_mul_right _ hidx
  have h2 := P.entries_fit
  rw [Nat.succ_mul] at h1
  omega

theorem entrySize_le (P : Platform w) : P.entrySize ≤ 2 ^ w := by
  have h1 : 1 * P.entrySize ≤ P.numEntriesInPage * P.entrySize :=
    Nat.mul_le_mul_right _ P.numEntries_pos
  have h2 := P.entries_fit
  have h3 := P.pageSize_le
  omega

theorem transit_inRange_slot {slot a : Addr w} (ha : InRange slot P.transitByteSize a) :
    InRange slot P.entrySize a :=
  inRange_mono ha (by have := P.transit_fits; have := P.trampoline_fits; omega)

theorem trampoline_inRange_slot {slot a : Addr w}
    (ha : InRange (P.trampolineAddr slot) P.trampolineByteSize a) : InRange slot P.entrySize a :=
  inRange_of_inner ha P.trampoline_fits (entrySize_le P)

/-- Storing an entry changes bytes of its slot only. -/
theorem storeEntry_frame {s : World w} {slot : Addr w} {e : FunchookEntry w}
    (ht : e.transit.length ≤ P.transitByteSize) (hr : e.trampoline.length ≤ P.trampolineByteSize)
    {a : Addr w} (ha : ¬ InRange slot P.entrySize a) :
    (storeEntry P s slot e).bytes a = s.bytes a := by
  show write (write s.bytes slot e.transit) (P.trampolineAddr slot) e.trampoline a = s.bytes a
  rw [write_of_not_inRange, write_of_not_inRange]
  · exact fun h => ha (transit_inRange_slot (inRange_mono h ht))
  · exact fun h => ha (trampoline_inRange_slot (inRange_mono h hr))

/-! ## Entries that a prepare adds -/

theorem preparedEntry_targetFunc (s : World w) (targetFunc func : Addr w)
    (params : FunchookParams w) (disp : P.IpDisplacement) (trampoline : List Byte)
    (slot : Addr w) :
    (preparedEntry P s targetFunc func params disp trampoline slot).targetFunc = func :=
  P.fixCode_targetFunc ..

theorem preparedEntry_oldCode (s : World w) (targetFunc func : Addr w)
    (params : FunchookParams w) (disp : P.IpDisplacement) (trampoline : List Byte)
    (slot : Addr w) :
    (preparedEntry P s targetFunc func params disp trampoline slot).oldCode =
      readBytes s.bytes func (P.maxPatchCodeSize * P.insnSize) :=
  P.fixCode_oldCode ..

theorem preparedEntry_transit_length (s : World w) (targetFunc func : Addr w)
    (params : FunchookParams w) (disp : P.IpDisplacement) (trampoline : List Byte)
    (slot : Addr w) :
    (preparedEntry P s targetFunc func params disp trampoline slot).transit.length =
      P.transitByteSize := by
  rw [preparedEntry, P.fixCode_transit_length]
  simp [fillEntry]

theorem preparedEntry_trampoline_length (s : World w) (targetFunc func : Addr w)
    (params : FunchookParams w) (disp : P.IpDisplacement) (trampoline : List Byte)
    (slot : Addr w) :
    (preparedEntry P s targetFunc func params disp trampoline slot).trampoline.length ≤
      P.trampolineByteSize := by
  rw [preparedEntry, P.fixCode_trampoline_length]
  exact List.length_take_le ..

/-- No patch is longer than the code saved for it. -/
theorem preparedEntry_patchCodeSize {s s' : World w} {targetFunc func : Addr w}
    {params : FunchookParams w} {disp : P.IpDisplacement} {trampoline : List Byte}
    {slot : Addr w} (hmake : P.funchookMakeTrampoline s.bytes func = .ok (disp, trampoline)) :
    (preparedEntry P s' targetFunc func params disp trampoline slot).patchCodeSize.toNat ≤
      P.maxPatchCodeSize := by
  refine P.fixCode_patchCodeSize hmake rfl ?_
  show (BitVec.ofNat 32 P.maxPatchCodeSize).toNat ≤ P.maxPatchCodeSize
  rw [BitVec.toNat_ofNat]
  exact Nat.mod_le _ _

theorem mem_addEntry {pages : List (FunchookPage w)} {idx : ℕ} {e e' : FunchookEntry w}
    (h : e' ∈ (addEntry pages idx e).flatMap FunchookPage.entries) :
    e' = e ∨ e' ∈ pages.flatMap FunchookPage.entries := by
  induction pages generalizing idx with
  | nil => simp [addEntry] at h
  | cons page pages ih =>
    cases idx with
    | zero =>
      simp only [addEntry, List.modify_zero_cons, List.flatMap_cons, List.mem_append,
        List.mem_singleton] at h ⊢
      tauto
    | succ idx =>
      simp only [addEntry, List.modify_succ_cons, List.flatMap_cons, List.mem_append] at h ⊢
      rcases h with h | h
      · exact Or.inr (Or.inl h)
      · exact (ih h).imp_right Or.inr

theorem mem_addEntry_of_mem {pages : List (FunchookPage w)} {idx : ℕ} {e e' : FunchookEntry w}
    (h : e' ∈ pages.flatMap FunchookPage.entries) :
    e' ∈ (addEntry pages idx e).flatMap FunchookPage.entries := by
  induction pages generalizing idx with
  | nil => cases h
  | cons page pages ih =>
    rw [List.flatMap_cons, List.mem_append] at h
    cases idx with
    | zero =>
      simp only [addEntry, List.modify_zero_cons, List.flatMap_cons, List.mem_append]
      exact h.imp_left Or.inl
    | succ idx =>
      simp only [addEntry, List.modify_succ_cons, List.flatMap_cons, List.mem_append]
      exact h.imp_right ih

theorem mem_addEntry_addr {pages : List (FunchookPage w)} {idx : ℕ} {e : FunchookEntry w}
    {page' : FunchookPage w} (h : page' ∈ addEntry pages idx e) :
    ∃ page ∈ pages, page.addr = page'.addr := by
  rw [addEntry, List.mem_iff_getElem?] at h
  obtain ⟨i, hi⟩ := h
  rw [List.getElem?_modify] at hi
  cases hp : pages[i]? with
  | none => rw [hp] at hi; cases hi
  | some page =>
    rw [hp] at hi
    refine ⟨page, List.mem_of_getElem? hp, ?_⟩
    rw [← Option.some.inj hi]
    dsimp only
    split <;> rfl

theorem FoundPage.entries_eq {fh : FunchookT w} {s s' : World w} {addr : Addr w}
    {disp : P.IpDisplacement} {answer : AllocAnswer w} {pages : List (FunchookPage w)} {idx : ℕ}
    {page : FunchookPage w} (h : FoundPage P fh s addr disp answer pages idx page s') :
    pages.flatMap FunchookPage.entries = fh.entries := by
  cases h with
  | reused => rfl
  | fresh => rfl

/-! ## Patches and target bytes -/

theorem newPatch_covers {e : FunchookEntry w} {a : Addr w} (h : (P.newPatch e).Covers a) :
    P.TargetByte e a :=
  inRange_mono h (List.length_take_le ..)

theorem oldPatch_covers {e : FunchookEntry w} {a : Addr w} (h : (P.oldPatch e).Covers a) :
    P.TargetByte e a :=
  inRange_mono h (List.length_take_le ..)

/-- What the saved code of an entry holds for a target byte, when it was read in the memory `m`. -/
theorem oldPatch_byteAt {e : FunchookEntry w} {m : Mem w}
    (hold : e.oldCode = readBytes m e.targetFunc (P.maxPatchCodeSize * P.insnSize))
    (hsize : e.patchCodeSize.toNat ≤ P.maxPatchCodeSize) {a : Addr w} (ha : P.TargetByte e a) :
    (P.oldPatch e).byteAt a = some (m a) := by
  have hle : P.patchCodeByteSize e ≤ P.maxPatchCodeSize * P.insnSize :=
    Nat.mul_le_mul_right _ hsize
  have hlt : (a - e.targetFunc).toNat < P.patchCodeByteSize e := ha
  rw [Patch.byteAt, Platform.oldPatch, hold, take_readBytes m _ hle,
    List.getElem?_eq_getElem (by simpa using hlt), getElem_readBytes, ← eq_add_of_inRange ha]

/-- The memory after patching some of the entries with their new code. -/
theorem writeAll_newPatch_frame {done : List (FunchookEntry w)} {m : Mem w} {a : Addr w}
    (h : ∀ e ∈ done, ¬ P.TargetByte e a) : writeAll (done.map P.newPatch) m a = m a := by
  refine writeAll_frame fun p hp hc => ?_
  obtain ⟨e, he, rfl⟩ := List.mem_map.mp hp
  exact h e he (newPatch_covers hc)

theorem writeAll_oldPatch_frame {done : List (FunchookEntry w)} {m : Mem w} {a : Addr w}
    (h : ∀ e ∈ done, ¬ P.TargetByte e a) : writeAll (done.map P.oldPatch) m a = m a := by
  refine writeAll_frame fun p hp hc => ?_
  obtain ⟨e, he, rfl⟩ := List.mem_map.mp hp
  exact h e he (oldPatch_covers hc)

/-- Where every entry has saved the byte `b`, writing the saved code back puts it there. -/
theorem writeAll_oldPatch_original {es : List (FunchookEntry w)} {m : Mem w} {a : Addr w} {b : Byte}
    (hold : ∀ e ∈ es, P.TargetByte e a → (P.oldPatch e).byteAt a = some b)
    {e : FunchookEntry w} (he : e ∈ es) (hta : P.TargetByte e a) :
    writeAll (es.map P.oldPatch) m a = b := by
  refine writeAll_agree (fun p hp hc => ?_) ⟨P.oldPatch e, List.mem_map_of_mem he, ?_⟩
  · obtain ⟨e', he', rfl⟩ := List.mem_map.mp hp
    exact hold e' he' (oldPatch_covers hc)
  · rw [← Patch.byteAt_isSome, hold e he hta]
    rfl

/-! ## What a prepare leaves as it was -/

/-- Pages are mapped where nothing is mapped. -/
def AllocAnswer.Fresh (P : Platform w) (answer : AllocAnswer w) (s : World w) : Prop :=
  ∀ p, answer.alloc = .ok p → s.Fresh p P.pageSize

theorem failedPrepareWorld_bytes {s s' : World w} {answer : AllocAnswer w}
    (hfresh : answer.Fresh P s) (h : FailedPrepareWorld P s answer s') {a : Addr w}
    (ha : s.mapped a = true) : s'.bytes a = s.bytes a ∧ s'.mapped a = true := by
  cases h with
  | same => exact ⟨rfl, ha⟩
  | @returned p hp =>
    refine ⟨mapPage_bytes_of_mapped (hfresh p hp) ha, ?_⟩
    rw [unmapPage_mapPage_mapped (hfresh p hp)]
    exact ha
  | @leaked p _ hp =>
    exact ⟨mapPage_bytes_of_mapped (hfresh p hp) ha, mapPage_mapped_of_mapped ha ..⟩

theorem foundPage_bytes {fh : FunchookT w} {s s' : World w} {addr : Addr w}
    {disp : P.IpDisplacement} {answer : AllocAnswer w} {pages : List (FunchookPage w)} {idx : ℕ}
    {page : FunchookPage w} (hfresh : answer.Fresh P s)
    (h : FoundPage P fh s addr disp answer pages idx page s') {a : Addr w}
    (ha : s.mapped a = true) : s'.bytes a = s.bytes a ∧ s'.mapped a = true := by
  cases h with
  | reused => exact ⟨rfl, ha⟩
  | @fresh p hp =>
    exact ⟨mapPage_bytes_of_mapped (hfresh p hp) ha, mapPage_mapped_of_mapped ha ..⟩

/-- The pages of the list after `get_page` meet no byte that the pages before and the fresh page
do not meet. -/
theorem foundPage_pages {fh : FunchookT w} {s s' : World w} {addr : Addr w}
    {disp : P.IpDisplacement} {answer : AllocAnswer w} {pages : List (FunchookPage w)} {idx : ℕ}
    {page page' : FunchookPage w} (h : FoundPage P fh s addr disp answer pages idx page s')
    (hpage : page' ∈ pages) : page' ∈ fh.pageList ∨ answer.alloc = .ok page'.addr := by
  cases h with
  | reused => exact Or.inl hpage
  | fresh hp =>
    rcases List.mem_cons.mp hpage with rfl | hpage
    · exact Or.inr hp
    · exact Or.inl hpage

/-- A prepare changes no mapped byte outside the pages of its handle, and unmaps none. -/
theorem prepare_frame {fh : FunchookT w} {s : World w} {targetFunc : Addr w}
    {params : FunchookParams w} {answer : AllocAnswer w} {r : PrepareResult w}
    (hfresh : answer.Fresh P s)
    (h : funchookPrepareInternal P fh s targetFunc params answer = some r) {a : Addr w}
    (ha : s.mapped a = true) (hpages : ∀ page ∈ fh.pageList, ¬ InRange page.addr P.pageSize a) :
    r.world.bytes a = s.bytes a ∧ r.world.mapped a = true := by
  rcases prepare_cases h with href | ⟨⟨p⟩⟩
  · exact failedPrepareWorld_bytes hfresh href.world ha
  · obtain ⟨hbytes, hmapped⟩ := foundPage_bytes hfresh p.found ha
    have hslot : ¬ InRange (P.slotAddr p.page.addr p.page.used) P.entrySize a := fun hin => by
      have hin' := slot_inRange_page p.found.used_lt hin
      rcases foundPage_pages p.found (List.mem_of_getElem? p.found.get) with hpage | halloc
      · exact hpages _ hpage hin'
      · exact absurd ha (by rw [hfresh _ halloc a hin']; decide)
    rw [p.result]
    refine ⟨?_, hmapped⟩
    show (storeEntry P p.world (P.slotAddr p.page.addr p.page.used) p.entry).bytes a = s.bytes a
    rw [storeEntry_frame _ _ hslot, hbytes]
    · rw [p.entry_eq, preparedEntry_transit_length]
    · rw [p.entry_eq]
      exact preparedEntry_trampoline_length ..

/-- A page of the list after a prepare was there before, or has just been mapped. -/
theorem prepare_pageList {fh : FunchookT w} {s : World w} {targetFunc : Addr w}
    {params : FunchookParams w} {answer : AllocAnswer w} {r : PrepareResult w}
    (h : funchookPrepareInternal P fh s targetFunc params answer = some r)
    {page : FunchookPage w} (hpage : page ∈ r.fh.pageList) :
    (∃ page' ∈ fh.pageList, page'.addr = page.addr) ∨ answer.alloc = .ok page.addr := by
  rcases prepare_cases h with href | ⟨⟨p⟩⟩
  · exact Or.inl ⟨page, href.pageList ▸ hpage, rfl⟩
  · rw [p.result] at hpage
    obtain ⟨page₁, hpage₁, haddr⟩ := mem_addEntry_addr hpage
    rw [← haddr]
    exact (foundPage_pages p.found hpage₁).imp_left fun hmem => ⟨page₁, hmem, rfl⟩

/-- An entry after a prepare was there before, or has just saved the code of its target. -/
theorem prepare_entries {fh : FunchookT w} {s : World w} {targetFunc : Addr w}
    {params : FunchookParams w} {answer : AllocAnswer w} {r : PrepareResult w}
    (hfresh : answer.Fresh P s)
    (h : funchookPrepareInternal P fh s targetFunc params answer = some r)
    {e : FunchookEntry w} (he : e ∈ r.fh.entries) :
    e ∈ fh.entries ∨ fh.installed = false ∧
      ∀ a, s.mapped a = true → P.TargetByte e a → (P.oldPatch e).byteAt a = some (s.bytes a) := by
  rcases prepare_cases h with href | ⟨⟨p⟩⟩
  · rw [FunchookT.entries, href.pageList] at he
    exact Or.inl he
  · rw [p.result] at he
    rcases mem_addEntry he with rfl | he
    · refine Or.inr ⟨p.not_installed, fun a ha hta => ?_⟩
      have hold : p.entry.oldCode =
          readBytes p.world.bytes p.entry.targetFunc (P.maxPatchCodeSize * P.insnSize) := by
        rw [p.entry_eq, preparedEntry_targetFunc]
        exact preparedEntry_oldCode ..
      have hsize : p.entry.patchCodeSize.toNat ≤ P.maxPatchCodeSize :=
        p.entry_eq ▸ preparedEntry_patchCodeSize p.built
      rw [oldPatch_byteAt hold hsize hta, (foundPage_bytes hfresh p.found ha).1]
    · exact Or.inl (p.found.entries_eq ▸ he)

theorem prepare_keeps_entries {fh : FunchookT w} {s : World w} {targetFunc : Addr w}
    {params : FunchookParams w} {answer : AllocAnswer w} {r : PrepareResult w}
    (h : funchookPrepareInternal P fh s targetFunc params answer = some r)
    {e : FunchookEntry w} (he : e ∈ fh.entries) : e ∈ r.fh.entries := by
  rcases prepare_cases h with href | ⟨⟨p⟩⟩
  · rw [FunchookT.entries, href.pageList]
    exact he
  · rw [p.result]
    rw [← p.found.entries_eq] at he
    exact mem_addEntry_of_mem he

/-! ## Runs -/

/-- A call on a handle, with the answers the memory layer gives to it. -/
inductive Call (w : ℕ) where
  | prepare (targetFunc hookFunc : Addr w) (answer : AllocAnswer w)
  | prepareWithParams (targetFunc : Addr w) (params : FunchookParams w) (answer : AllocAnswer w)
  | install (os : List OsAnswer)
  | uninstall (os : List OsAnswer)

def Call.isPrepare : Call w → Bool
  | .prepare .. => true
  | .prepareWithParams .. => true
  | .install _ => false
  | .uninstall _ => false

/-- Pages are mapped where nothing is mapped. -/
def Call.Fresh (P : Platform w) : Call w → World w → Prop
  | .prepare _ _ answer, s => answer.Fresh P s
  | .prepareWithParams _ _ answer, s => answer.Fresh P s
  | .install _, _ => True
  | .uninstall _, _ => True

def FunchookT.call (P : Platform w) (fh : FunchookT w) (s : World w) :
    Call w → Option (CallResult w)
  | .prepare targetFunc hookFunc answer =>
    (funchookPrepare P fh s targetFunc hookFunc answer).map PrepareResult.toCallResult
  | .prepareWithParams targetFunc params answer =>
    (funchookPrepareWithParams P fh s targetFunc params answer).map PrepareResult.toCallResult
  | .install os => some (funchookInstallInternal P fh s os)
  | .uninstall os => some (funchookUninstallInternal P fh s os)

/-- A handle and the process. `installFailed` is no state of the program: it records that an
install has failed since the last successful uninstall. -/
structure HandleState (w : ℕ) where
  fh : FunchookT w
  world : World w
  installFailed : Bool

def HandleState.start (s₀ : World w) : HandleState w := ⟨funchookCreate, s₀, false⟩

def HandleState.nextFailed (st : HandleState w) (rv : ErrorCode) : Call w → Bool
  | .prepare .. => st.installFailed
  | .prepareWithParams .. => st.installFailed
  | .install _ => st.installFailed || decide (rv ≠ errorSuccess)
  | .uninstall _ => st.installFailed && decide (rv ≠ errorSuccess)

def HandleState.step (P : Platform w) (st : HandleState w) (c : Call w) :
    Option (HandleState w) :=
  (st.fh.call P st.world c).map fun r => ⟨r.fh, r.world, st.nextFailed r.rv c⟩

def HandleStep (P : Platform w) (st : HandleState w) (c : Call w) (st' : HandleState w) : Prop :=
  c.Fresh P st.world ∧ st.step P c = some st'

/-- No prepare is made between a failed install and the next successful uninstall. -/
def NoPrepareAfterFailure (st : HandleState w) (c : Call w) : Prop :=
  c.isPrepare = true → st.installFailed = false

/-! ## The invariant -/

structure RestoreInv (P : Platform w) (s₀ : World w) (st : HandleState w) : Prop where
  mapped : ∀ a, s₀.mapped a = true → st.world.mapped a = true
  pages : ∀ page ∈ st.fh.pageList, ∀ a, InRange page.addr P.pageSize a → s₀.mapped a = false
  oldCode : ∀ e ∈ st.fh.entries, ∀ a, s₀.mapped a = true → P.TargetByte e a →
    (P.oldPatch e).byteAt a = some (s₀.bytes a)
  frame : ∀ a, s₀.mapped a = true → (∀ e ∈ st.fh.entries, ¬ P.TargetByte e a) →
    st.world.bytes a = s₀.bytes a
  clean : st.fh.installed = false → st.installFailed = false → ∀ a, s₀.mapped a = true →
    st.world.bytes a = s₀.bytes a

theorem restoreInv_start (P : Platform w) (s₀ : World w) : RestoreInv P s₀ (.start s₀) where
  mapped := fun _ ha => ha
  pages := fun _ h => by cases h
  oldCode := fun _ h => by cases h
  frame := fun _ _ _ => rfl
  clean := fun _ _ _ _ => rfl

theorem restoreInv_prepare {s₀ : World w} {st : HandleState w} {targetFunc : Addr w}
    {params : FunchookParams w} {answer : AllocAnswer w} {r : PrepareResult w}
    (hinv : RestoreInv P s₀ st) (hd : st.installFailed = false)
    (hfresh : answer.Fresh P st.world)
    (h : funchookPrepareInternal P st.fh st.world targetFunc params answer = some r) :
    RestoreInv P s₀ ⟨r.fh, r.world, false⟩ := by
  have hframe : ∀ a, s₀.mapped a = true →
      r.world.bytes a = st.world.bytes a ∧ r.world.mapped a = true := fun a ha =>
    prepare_frame hfresh h (hinv.mapped a ha) fun page hpage hin => by
      have hout := hinv.pages page hpage a hin
      rw [ha] at hout
      cases hout
  refine ⟨fun a ha => (hframe a ha).2, fun page hpage a ha => ?_, fun e he a ha hta => ?_,
    fun a ha hne => ?_, fun hi _ a ha => ?_⟩
  · rcases prepare_pageList h hpage with ⟨page', hpage', haddr⟩ | halloc
    · exact hinv.pages page' hpage' a (haddr ▸ ha)
    · cases hm : s₀.mapped a with
      | false => rfl
      | true => exact absurd (hinv.mapped a hm) (by rw [hfresh _ halloc a ha]; decide)
  · rcases prepare_entries hfresh h he with hmem | ⟨hnot, hsaved⟩
    · exact hinv.oldCode e hmem a ha hta
    · rw [hsaved a (hinv.mapped a ha) hta, hinv.clean hnot hd a ha]
  · rw [(hframe a ha).1]
    exact hinv.frame a ha fun e he => hne e (prepare_keeps_entries h he)
  · rw [(hframe a ha).1]
    exact hinv.clean ((prepare_installed h).symm.trans hi) hd a ha

/-- The contents of the pages of a handle, and so its entries, survive install and uninstall. -/
theorem mem_pageList_of_contents {pages pages' : List (FunchookPage w)}
    (h : pageContents pages = pageContents pages') {page : FunchookPage w} (hpage : page ∈ pages) :
    ∃ page' ∈ pages', page'.addr = page.addr := by
  have hmem : (page.addr, page.entries) ∈ pageContents pages' :=
    h ▸ List.mem_map_of_mem (f := fun q : FunchookPage w => (q.addr, q.entries)) hpage
  obtain ⟨page', hpage', heq⟩ := List.mem_map.mp hmem
  exact ⟨page', hpage', congrArg Prod.fst heq⟩

/-- Install keeps the invariant for any flag that is set when an entry has been overwritten by an
install that failed. -/
theorem restoreInv_install_of_flag {s₀ : World w} {st : HandleState w} (hinv : RestoreInv P s₀ st)
    (os : List OsAnswer) {flag : Bool}
    (hflag : st.fh.installed = false → flag = false → st.installFailed = false ∧
      ((funchookInstallInternal P st.fh st.world os).rv = errorSuccess ∨
        (installReach st.fh.pageList os).done = [])) :
    RestoreInv P s₀ ⟨(funchookInstallInternal P st.fh st.world os).fh,
      (funchookInstallInternal P st.fh st.world os).world, flag⟩ := by
  cases hinst : st.fh.installed with
  | true =>
    rw [install_installed st.fh st.world os hinst]
    exact ⟨hinv.mapped, hinv.pages, hinv.oldCode, hinv.frame,
      fun hi => absurd (hinst.symm.trans hi) (by decide)⟩
  | false =>
    obtain ⟨hb, hm, hp, hrv⟩ := install_spec (P := P) st.fh st.world os hinst
    have hentries := flatMap_entries_eq hp
    refine ⟨fun a ha => ?_, fun page hpage a ha => ?_, ?_, fun a ha hne => ?_,
      fun hi hf a ha => ?_⟩
    · rw [hm]; exact hinv.mapped a ha
    · obtain ⟨page₁, hpage₁, haddr⟩ := mem_pageList_of_contents hp hpage
      exact hinv.pages page₁ hpage₁ a (haddr ▸ ha)
    · rw [FunchookT.entries, hentries]; exact hinv.oldCode
    · rw [FunchookT.entries, hentries] at hne
      rw [hb, writeAll_newPatch_frame fun e he =>
        hne e ((installReach_prefix_entries _ _).subset he)]
      exact hinv.frame a ha hne
    · obtain ⟨hclean, hok | hnil⟩ := hflag hinst hf
      · rcases hrv with ⟨-, hcode, -⟩ | ⟨-, -, hinst'⟩
        · rw [hok] at hcode
          cases hcode
        · rw [hinst'] at hi
          cases hi
      · rw [hb, hnil]
        exact hinv.clean hinst hclean a ha

theorem restoreInv_install {s₀ : World w} {st : HandleState w} (hinv : RestoreInv P s₀ st)
    (os : List OsAnswer) :
    RestoreInv P s₀ ⟨(funchookInstallInternal P st.fh st.world os).fh,
      (funchookInstallInternal P st.fh st.world os).world,
      st.installFailed ||
        decide ((funchookInstallInternal P st.fh st.world os).rv ≠ errorSuccess)⟩ :=
  restoreInv_install_of_flag hinv os fun _ hf => by
    rw [Bool.or_eq_false_iff, decide_eq_false_iff_not, not_not] at hf
    exact hf.imp_right Or.inl

/-- After a successful uninstall every byte mapped at the start of the run is original. -/
theorem uninstall_bytes {s₀ : World w} {st : HandleState w} (hinv : RestoreInv P s₀ st)
    (os : List OsAnswer) (hrv : (funchookUninstallInternal P st.fh st.world os).rv = errorSuccess)
    {a : Addr w} (ha : s₀.mapped a = true) :
    (funchookUninstallInternal P st.fh st.world os).world.bytes a = s₀.bytes a := by
  cases hinst : st.fh.installed with
  | false =>
    rw [uninstall_not_installed st.fh st.world os hinst] at hrv
    cases hrv
  | true =>
    obtain ⟨hb, -, -, hcase⟩ := uninstall_spec (P := P) st.fh st.world os hinst
    rcases hcase with ⟨-, hcode, -⟩ | ⟨hall, -, -⟩
    · rw [hcode] at hrv
      cases hrv
    · rw [hb, uninstallReach_all hall]
      change writeAll (st.fh.entries.map P.oldPatch) st.world.bytes a = s₀.bytes a
      by_cases hcov : ∃ e ∈ st.fh.entries, P.TargetByte e a
      · obtain ⟨e, he, hta⟩ := hcov
        exact writeAll_oldPatch_original (fun e' he' => hinv.oldCode e' he' a ha) he hta
      · rw [writeAll_oldPatch_frame fun e he hta => hcov ⟨e, he, hta⟩]
        exact hinv.frame a ha fun e he hta => hcov ⟨e, he, hta⟩

theorem restoreInv_uninstall {s₀ : World w} {st : HandleState w} (hinv : RestoreInv P s₀ st)
    (os : List OsAnswer) :
    RestoreInv P s₀ ⟨(funchookUninstallInternal P st.fh st.world os).fh,
      (funchookUninstallInternal P st.fh st.world os).world,
      st.installFailed &&
        decide ((funchookUninstallInternal P st.fh st.world os).rv ≠ errorSuccess)⟩ := by
  cases hinst : st.fh.installed with
  | false =>
    rw [uninstall_not_installed st.fh st.world os hinst]
    exact ⟨hinv.mapped, hinv.pages, hinv.oldCode, hinv.frame,
      fun hi hf => hinv.clean hi (by simpa [errorNotInstalled, errorSuccess] using hf)⟩
  | true =>
    obtain ⟨hb, hm, hp, hcase⟩ := uninstall_spec (P := P) st.fh st.world os hinst
    have hentries := flatMap_entries_eq hp
    refine ⟨fun a ha => ?_, fun page hpage a ha => ?_, ?_, fun a ha hne => ?_,
      fun hi _ a ha => ?_⟩
    · rw [hm]; exact hinv.mapped a ha
    · obtain ⟨page₁, hpage₁, haddr⟩ := mem_pageList_of_contents hp hpage
      exact hinv.pages page₁ hpage₁ a (haddr ▸ ha)
    · rw [FunchookT.entries, hentries]; exact hinv.oldCode
    · rw [FunchookT.entries, hentries] at hne
      rw [hb, writeAll_oldPatch_frame fun e he =>
        hne e ((uninstallReach_prefix_entries _ _).subset he)]
      exact hinv.frame a ha hne
    · rcases hcase with ⟨-, -, hinst'⟩ | ⟨-, hcode, -⟩
      · rw [hinst'] at hi
        cases hi
      · exact uninstall_bytes hinv os hcode ha

/-- **Step.** Every call on the handle keeps the invariant. -/
theorem restoreInv_step {s₀ : World w} {st st' : HandleState w} {c : Call w}
    (hinv : RestoreInv P s₀ st) (hcond : NoPrepareAfterFailure st c)
    (hstep : HandleStep P st c st') : RestoreInv P s₀ st' := by
  obtain ⟨hfresh, hcall⟩ := hstep
  obtain ⟨r, hr, rfl⟩ := Option.map_eq_some_iff.mp hcall
  cases c with
  | prepare targetFunc hookFunc answer =>
    obtain ⟨q, hq, rfl⟩ := Option.map_eq_some_iff.mp hr
    show RestoreInv P s₀ ⟨q.fh, q.world, st.installFailed⟩
    rw [hcond rfl]
    exact restoreInv_prepare hinv (hcond rfl) hfresh hq
  | prepareWithParams targetFunc params answer =>
    obtain ⟨q, hq, rfl⟩ := Option.map_eq_some_iff.mp hr
    show RestoreInv P s₀ ⟨q.fh, q.world, st.installFailed⟩
    rw [hcond rfl]
    exact restoreInv_prepare hinv (hcond rfl) hfresh hq
  | install os =>
    cases hr
    exact restoreInv_install hinv os
  | uninstall os =>
    cases hr
    exact restoreInv_uninstall hinv os

/-- **Run.** Every state of such a run satisfies the invariant. -/
theorem restoreInv_run {s₀ : World w} {st : HandleState w}
    (hrun : Run (HandleStep P) NoPrepareAfterFailure (.start s₀) st) : RestoreInv P s₀ st :=
  hrun.invariant (restoreInv_start P s₀) fun _ _ _ hinv hcond hstep =>
    restoreInv_step hinv hcond hstep

/-- **Uninstall restores.** In every run of prepares, installs and uninstalls of one handle, in
which any call of the memory layer may fail, each uninstall that returns 0 leaves every byte that
was mapped at the start of the run with the value it had there. -/
theorem uninstall_restores_original_bytes {s₀ : World w} {st : HandleState w}
    (hrun : Run (HandleStep P) NoPrepareAfterFailure (.start s₀) st) (os : List OsAnswer)
    (hrv : (funchookUninstallInternal P st.fh st.world os).rv = errorSuccess) (a : Addr w)
    (ha : s₀.mapped a = true) :
    (funchookUninstallInternal P st.fh st.world os).world.bytes a = s₀.bytes a :=
  uninstall_bytes (restoreInv_run hrun) os hrv ha

/-- The sample build on x86-64. -/
def samplePlatform : Platform 64 := X86.platform (X86.sampleBuild .x86_64)

/-- The function at `0x401000` of the sample process, hooked by the one at `0x402000`. -/
def sampleHandle : PrepareResult 64 :=
  (funchookPrepare samplePlatform funchookCreate X86.sampleWorld
    0x401000 0x402000 ⟨.ok 0x500000, .ok⟩).get (by decide +kernel)

theorem sample_fresh : AllocAnswer.Fresh samplePlatform ⟨.ok 0x500000, .ok⟩ X86.sampleWorld := by
  rintro p ⟨⟩ a ha
  have hlt : (a - 0x500000).toNat < 4096 := ha
  refine decide_eq_false fun h => ?_
  have hlt' : (a - 0x400000).toNat < 0x4000 := h
  bv_omega

/-- A failed install that has overwritten the function, and the install that follows it. -/
def sampleInstalled : HandleState 64 :=
  (((HandleState.mk sampleHandle.fh sampleHandle.world false).step samplePlatform
    (.install [.ok, .ok, .fail "mprotect"])).bind
      fun st => st.step samplePlatform (.install [])).get (by decide +kernel)

theorem uninstall_restores_original_bytes_sample :
    sampleInstalled.world.bytes 0x401000 = 0xe9 ∧
      (funchookUninstallInternal samplePlatform sampleInstalled.fh
        sampleInstalled.world []).world.bytes 0x401000 = 0x90 := by
  have hprepare : Run (HandleStep samplePlatform) NoPrepareAfterFailure (.start X86.sampleWorld)
      ⟨sampleHandle.fh, sampleHandle.world, false⟩ :=
    .call .start (.prepare 0x401000 0x402000 ⟨.ok 0x500000, .ok⟩) (fun _ => rfl)
      ⟨sample_fresh, rfl⟩
  have hfailed := hprepare.call (.install [.ok, .ok, .fail "mprotect"]) (fun h => by cases h)
    ⟨trivial, rfl⟩
  have hrun : Run (HandleStep samplePlatform) NoPrepareAfterFailure (.start X86.sampleWorld)
      sampleInstalled :=
    hfailed.call (.install []) (fun h => by cases h) ⟨trivial, rfl⟩
  exact ⟨by decide +kernel, uninstall_restores_original_bytes hrun [] (by decide +kernel) _
    (by decide +kernel)⟩

end Funchook
