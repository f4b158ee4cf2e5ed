import Funchook.Handle

/-!
# What the operations of a handle do

One lemma for each operation says everything it can do; the invariants are derived from these
and never unfold the operations again. How far the loops of install and uninstall get depends on
the answers of the operating system only, so it is computed by `entriesReach`, `installReach` and
`uninstallReach`, and the bytes a loop leaves are the patches of the entries reached.
-/

namespace Funchook

open ByteMemory

variable {w : ℕ} {P : Platform w}

/-! ## How far a loop gets -/

/-- The entries a loop has overwritten when it stops, the answers left, whether a call failed. -/
structure Reach (w : ℕ) where
  done : List (FunchookEntry w)
  answers : List OsAnswer
  failed : Bool

/-- The inner loop: an entry is overwritten between its two calls. -/
def entriesReach : List (FunchookEntry w) → List OsAnswer → Reach w
  | [], os => ⟨[], os, false⟩
  | e :: es, os =>
    match nextAnswer os with
    | (.fail _, os) => ⟨[], os, true⟩
    | (.ok, os) =>
      match nextAnswer os with
      | (.fail _, os) => ⟨[e], os, true⟩
      | (.ok, os) => { entriesReach es os with done := e :: (entriesReach es os).done }

/-- The page loop of install: one call before the entries of each page. -/
def installReach : List (FunchookPage w) → List OsAnswer → Reach w
  | [], os => ⟨[], os, false⟩
  | page :: pages, os =>
    match nextAnswer os with
    | (.fail _, os) => ⟨[], os, true⟩
    | (.ok, os) =>
      let r := entriesReach page.entries os
      if r.failed then r
      else
        let rest := installReach pages r.answers
        { rest with done := r.done ++ rest.done }

/-- The page loop of uninstall: one call after the entries of each page, its result ignored. -/
def uninstallReach : List (FunchookPage w) → List OsAnswer → Reach w
  | [], os => ⟨[], os, false⟩
  | page :: pages, os =>
    let r := entriesReach page.entries os
    if r.failed then r
    else
      let rest := uninstallReach pages (nextAnswer r.answers).2
      { rest with done := r.done ++ rest.done }

theorem entriesReach_prefix_entries (es : List (FunchookEntry w)) (os : List OsAnswer) :
    (entriesReach es os).done <+: es := by
  induction es generalizing os with
  | nil => exact List.nil_prefix
  | cons e es ih =>
    unfold entriesReach
    split
    · exact List.nil_prefix
    · split
      · exact (List.prefix_cons_inj e).mpr List.nil_prefix
      · exact (List.prefix_cons_inj e).mpr (ih _)

theorem entriesReach_all {es : List (FunchookEntry w)} {os : List OsAnswer}
    (h : (entriesReach es os).failed = false) : (entriesReach es os).done = es := by
  induction es generalizing os with
  | nil => rfl
  | cons e es ih =>
    unfold entriesReach at h ⊢
    split at h
    · cases h
    · split at h
      · cases h
      · exact congrArg (e :: ·) (ih h)

theorem installReach_prefix_entries (pages : List (FunchookPage w)) (os : List OsAnswer) :
    (installReach pages os).done <+: pages.flatMap FunchookPage.entries := by
  induction pages generalizing os with
  | nil => exact List.nil_prefix
  | cons page pages ih =>
    unfold installReach
    rw [List.flatMap_cons]
    split
    · exact List.nil_prefix
    · dsimp only
      split
      · exact (entriesReach_prefix_entries _ _).trans (List.prefix_append _ _)
      · rename_i os _ hf
        rw [entriesReach_all (by simpa using hf)]
        exact (List.prefix_append_right_inj _).mpr (ih _)

theorem installReach_all {pages : List (FunchookPage w)} {os : List OsAnswer}
    (h : (installReach pages os).failed = false) :
    (installReach pages os).done = pages.flatMap FunchookPage.entries := by
  induction pages generalizing os with
  | nil => rfl
  | cons page pages ih =>
    unfold installReach at h ⊢
    rw [List.flatMap_cons]
    split at h
    · cases h
    · dsimp only at h ⊢
      split at h
      · rename_i hf
        rw [h] at hf
        cases hf
      · rename_i hf
        rw [if_neg hf, entriesReach_all (by simpa using hf)]
        exact congrArg (page.entries ++ ·) (ih h)

theorem uninstallReach_prefix_entries (pages : List (FunchookPage w)) (os : List OsAnswer) :
    (uninstallReach pages os).done <+: pages.flatMap FunchookPage.entries := by
  induction pages generalizing os with
  | nil => exact List.nil_prefix
  | cons page pages ih =>
    unfold uninstallReach
    rw [List.flatMap_cons]
    dsimp only
    split
    · exact (entriesReach_prefix_entries _ _).trans (List.prefix_append _ _)
    · rename_i hf
      rw [entriesReach_all (by simpa using hf)]
      exact (List.prefix_append_right_inj _).mpr (ih _)

theorem uninstallReach_all {pages : List (FunchookPage w)} {os : List OsAnswer}
    (h : (uninstallReach pages os).failed = false) :
    (uninstallReach pages os).done = pages.flatMap FunchookPage.entries := by
  induction pages generalizing os with
  | nil => rfl
  | cons page pages ih =>
    unfold uninstallReach at h ⊢
    rw [List.flatMap_cons]
    dsimp only at h ⊢
    split at h
    · rename_i hf
      rw [h] at hf
      cases hf
    · rename_i hf
      rw [if_neg hf, entriesReach_all (by simpa using hf)]
      exact congrArg (page.entries ++ ·) (ih h)

theorem nextAnswer_ok {os : List OsAnswer} (h : ∀ a ∈ os, a = .ok) :
    ∃ rest, nextAnswer os = (.ok, rest) ∧ ∀ a ∈ rest, a = .ok := by
  cases os with
  | nil => exact ⟨[], rfl, h⟩
  | cons a os =>
    refine ⟨os, ?_, fun b hb => h b (List.mem_cons_of_mem a hb)⟩
    rw [nextAnswer, h a List.mem_cons_self]

theorem entriesReach_ok (es : List (FunchookEntry w)) {os : List OsAnswer}
    (h : ∀ a ∈ os, a = .ok) :
    (entriesReach es os).failed = false ∧ ∀ a ∈ (entriesReach es os).answers, a = .ok := by
  induction es generalizing os with
  | nil => exact ⟨rfl, h⟩
  | cons e es ih =>
    obtain ⟨os₁, hbegin, h₁⟩ := nextAnswer_ok h
    obtain ⟨os₂, hend, h₂⟩ := nextAnswer_ok h₁
    simp only [entriesReach, hbegin, hend]
    exact ih h₂

/-- When every call succeeds, install reaches every entry. -/
theorem installReach_ok (pages : List (FunchookPage w)) {os : List OsAnswer}
    (h : ∀ a ∈ os, a = .ok) : (installReach pages os).failed = false := by
  induction pages generalizing os with
  | nil => rfl
  | cons page pages ih =>
    obtain ⟨os₁, hprotect, h₁⟩ := nextAnswer_ok h
    obtain ⟨hok, h₂⟩ := entriesReach_ok page.entries h₁
    simp only [installReach, hprotect, hok, Bool.false_eq_true, if_false]
    exact ih h₂

theorem uninstallReach_ok (pages : List (FunchookPage w)) {os : List OsAnswer}
    (h : ∀ a ∈ os, a = .ok) : (uninstallReach pages os).failed = false := by
  induction pages generalizing os with
  | nil => rfl
  | cons page pages ih =>
    obtain ⟨hok, h₁⟩ := entriesReach_ok page.entries h
    obtain ⟨os₂, hnext, h₂⟩ := nextAnswer_ok h₁
    simp only [uninstallReach, hok, hnext, Bool.false_eq_true, if_false]
    exact ih h₂

/-! ## The loops of install and uninstall -/

/-- Everything but the protection of the pages of a list. -/
def pageContents (pages : List (FunchookPage w)) : List (Addr w × List (FunchookEntry w)) :=
  pages.map fun page => (page.addr, page.entries)

theorem flatMap_entries_eq {pages pages' : List (FunchookPage w)}
    (h : pageContents pages = pageContents pages') :
    pages.flatMap FunchookPage.entries = pages'.flatMap FunchookPage.entries := by
  have hc : ∀ l : List (FunchookPage w),
      l.flatMap FunchookPage.entries = (pageContents l).flatMap Prod.snd := fun l => by
    simp [pageContents, List.flatMap_map]
  rw [hc, hc, h]

theorem patchEntries_reach (code : FunchookEntry w → Patch w) (es : List (FunchookEntry w))
    (m : Mem w) (os : List OsAnswer) :
    (patchEntries code es m os).bytes = writeAll ((entriesReach es os).done.map code) m ∧
      (patchEntries code es m os).answers = (entriesReach es os).answers ∧
      (patchEntries code es m os).error.isSome = (entriesReach es os).failed := by
  induction es generalizing m os with
  | nil => exact ⟨rfl, rfl, rfl⟩
  | cons e es ih =>
    rcases hbegin : nextAnswer os with ⟨_ | message, os⟩
    · rcases hend : nextAnswer os with ⟨_ | message, os⟩
      · simp only [patchEntries, entriesReach, hbegin, hend]
        exact ih _ os
      · simp [patchEntries, entriesReach, hbegin, hend, writeAll]
    · simp [patchEntries, entriesReach, hbegin, writeAll]

theorem installPages_reach (pages : List (FunchookPage w)) (m : Mem w) (os : List OsAnswer) :
    (installPages P pages m os).bytes =
        writeAll ((installReach pages os).done.map P.newPatch) m ∧
      (installPages P pages m os).error.isSome = (installReach pages os).failed ∧
      pageContents (installPages P pages m os).pageList = pageContents pages := by
  induction pages generalizing m os with
  | nil => exact ⟨rfl, rfl, rfl⟩
  | cons page pages ih =>
    rcases hprotect : nextAnswer os with ⟨_ | message, os⟩
    · obtain ⟨hbytes, hanswers, herror⟩ := patchEntries_reach P.newPatch page.entries m os
      simp only [installPages, installReach, hprotect]
      cases hm : (patchEntries P.newPatch page.entries m os).error with
      | some message =>
        have hf : (entriesReach page.entries os).failed = true := by rw [← herror, hm]; rfl
        simp only [hf, if_true]
        exact ⟨hbytes, by rw [hm]; rfl, rfl⟩
      | none =>
        rw [hm] at herror
        simp only [← herror, Option.isSome_none, Bool.false_eq_true, if_false]
        obtain ⟨ihb, ihe, ihp⟩ := ih (patchEntries P.newPatch page.entries m os).bytes
          (patchEntries P.newPatch page.entries m os).answers
        rw [hanswers] at ihb ihe ihp
        rw [hanswers]
        refine ⟨?_, ihe, congrArg (_ :: ·) ihp⟩
        rw [ihb, hbytes, List.map_append, writeAll_append]
    · simp [installPages, installReach, hprotect, writeAll]

theorem uninstallPages_reach (pages : List (FunchookPage w)) (m : Mem w) (os : List OsAnswer)
    (note : Option String) :
    (uninstallPages P pages m os note).1.bytes =
        writeAll ((uninstallReach pages os).done.map P.oldPatch) m ∧
      (uninstallPages P pages m os note).1.error.isSome = (uninstallReach pages os).failed ∧
      pageContents (uninstallPages P pages m os note).1.pageList = pageContents pages := by
  induction pages generalizing m os note with
  | nil => exact ⟨rfl, rfl, rfl⟩
  | cons page pages ih =>
    obtain ⟨hbytes, hanswers, herror⟩ := patchEntries_reach P.oldPatch page.entries m os
    simp only [uninstallPages, uninstallReach]
    cases hm : (patchEntries P.oldPatch page.entries m os).error with
    | some message =>
      have hf : (entriesReach page.entries os).failed = true := by rw [← herror, hm]; rfl
      simp only [hf, if_true]
      exact ⟨hbytes, by rw [hm]; rfl, trivial⟩
    | none =>
      rw [hm] at herror
      simp only [← herror, Option.isSome_none, Bool.false_eq_true, if_false]
      rw [hanswers, List.map_append, writeAll_append, ← hbytes]
      rcases nextAnswer (entriesReach page.entries os).answers with ⟨_ | message, os⟩
      all_goals
        obtain ⟨ihb, ihe, ihp⟩ := ih (patchEntries P.oldPatch page.entries m _).bytes os _
        exact ⟨ihb, ihe, congrArg (_ :: ·) ihp⟩

/-! ## Install, uninstall -/

/-- **Install.** A handle that is installed already is refused without effect. Otherwise the
entries reached are patched, and the flag is set exactly when no call failed. -/
theorem install_spec (fh : FunchookT w) (s : World w) (os : List OsAnswer)
    (h : fh.installed = false) :
    let r := funchookInstallInternal P fh s os
    r.world.bytes = writeAll ((installReach fh.pageList os).done.map P.newPatch) s.bytes ∧
      r.world.mapped = s.mapped ∧
      pageContents r.fh.pageList = pageContents fh.pageList ∧
      (((installReach fh.pageList os).failed = true ∧ r.rv = errorMemoryFunction ∧
          r.fh.installed = false) ∨
        ((installReach fh.pageList os).failed = false ∧ r.rv = errorSuccess ∧
          r.fh.installed = true)) := by
  obtain ⟨hb, he, hp⟩ := installPages_reach (P := P) fh.pageList s.bytes os
  unfold funchookInstallInternal
  rw [if_neg (by rw [h]; decide)]
  dsimp only
  split
  · rename_i message hm
    rw [hm] at he
    exact ⟨hb, rfl, hp, Or.inl ⟨he.symm, rfl, h⟩⟩
  · rename_i hm
    rw [hm] at he
    exact ⟨hb, rfl, hp, Or.inr ⟨he.symm, rfl, rfl⟩⟩

theorem install_installed (fh : FunchookT w) (s : World w) (os : List OsAnswer)
    (h : fh.installed = true) :
    funchookInstallInternal P fh s os = ⟨errorAlreadyInstalled, fh, s⟩ :=
  if_pos h

/-- **Uninstall.** A handle that is not installed is refused without effect. Otherwise the
entries reached are restored, and the flag is cleared exactly when no call before or after a
`memcpy` failed. -/
theorem uninstall_spec (fh : FunchookT w) (s : World w) (os : List OsAnswer)
    (h : fh.installed = true) :
    let r := funchookUninstallInternal P fh s os
    r.world.bytes = writeAll ((uninstallReach fh.pageList os).done.map P.oldPatch) s.bytes ∧
      r.world.mapped = s.mapped ∧
      pageContents r.fh.pageList = pageContents fh.pageList ∧
      (((uninstallReach fh.pageList os).failed = true ∧ r.rv = errorMemoryFunction ∧
          r.fh.installed = true) ∨
        ((uninstallReach fh.pageList os).failed = false ∧ r.rv = errorSuccess ∧
          r.fh.installed = false)) := by
  obtain ⟨hb, he, hp⟩ := uninstallPages_reach (P := P) fh.pageList s.bytes os none
  have hnote : ∀ (g : FunchookT w) (note : Option String),
      (g.noteError note).pageList = g.pageList ∧ (g.noteError note).installed = g.installed := by
    intro g note
    cases note <;> exact ⟨rfl, rfl⟩
  unfold funchookUninstallInternal
  rw [if_pos h]
  dsimp only
  split
  · rename_i message hm
    rw [hm] at he
    refine ⟨hb, rfl, ?_, Or.inl ⟨he.symm, rfl, ?_⟩⟩
    · rw [setErrorMessage_pageList, (hnote _ _).1]
      exact hp
    · rw [setErrorMessage_installed, (hnote _ _).2]
      exact h
  · rename_i hm
    rw [hm] at he
    refine ⟨hb, rfl, ?_, Or.inr ⟨he.symm, rfl, rfl⟩⟩
    rw [(hnote _ _).1]
    exact hp

theorem uninstall_not_installed (fh : FunchookT w) (s : World w) (os : List OsAnswer)
    (h : fh.installed = false) :
    funchookUninstallInternal P fh s os = ⟨errorNotInstalled, fh, s⟩ :=
  if_neg (by rw [h]; decide)

/-! ## Prepare -/

/-- The process after a prepare that fails: as before, or with a page mapped and given back (which
stays mapped when giving it back fails). -/
inductive FailedPrepareWorld (P : Platform w) (s : World w) (answer : AllocAnswer w) :
    World w → Prop where
  | same : FailedPrepareWorld P s answer s
  | returned {p : Addr w} (hp : answer.alloc = .ok p) (hf : answer.free = .ok) :
      FailedPrepareWorld P s answer ((s.mapPage p P.pageSize).unmapPage p P.pageSize)
  | leaked {p : Addr w} {message : String} (hp : answer.alloc = .ok p)
      (hf : answer.free = .fail message) :
      FailedPrepareWorld P s answer (s.mapPage p P.pageSize)

/-- The page list and the process when `get_page` has found the page at `idx`: a page of the list
with a free slot, or a page just mapped and put at the head of the list. -/
inductive FoundPage (P : Platform w) (fh : FunchookT w) (s : World w) (addr : Addr w)
    (disp : P.IpDisplacement) (answer : AllocAnswer w) :
    List (FunchookPage w) → ℕ → FunchookPage w → World w → Prop where
  | reused {idx : ℕ} {page : FunchookPage w} (hget : fh.pageList[idx]? = some page)
      (hused : page.used < P.numEntriesInPage)
      (havail : P.funchookPageAvail (P.slotAddr page.addr page.used) addr disp = true) :
      FoundPage P fh s addr disp answer fh.pageList idx page s
  | fresh {p : Addr w} (hp : answer.alloc = .ok p)
      (havail : P.funchookPageAvail (P.slotAddr p 0) addr disp = true) :
      FoundPage P fh s addr disp answer (⟨p, [], .readWrite⟩ :: fh.pageList) 0 ⟨p, [], .readWrite⟩
        (s.mapPage p P.pageSize)

theorem FoundPage.get {fh : FunchookT w} {s s' : World w} {addr : Addr w}
    {disp : P.IpDisplacement} {answer : AllocAnswer w} {pages : List (FunchookPage w)} {idx : ℕ}
    {page : FunchookPage w} (h : FoundPage P fh s addr disp answer pages idx page s') :
    pages[idx]? = some page := by
  cases h with
  | reused hget => exact hget
  | fresh => rfl

theorem FoundPage.used_lt {fh : FunchookT w} {s s' : World w} {addr : Addr w}
    {disp : P.IpDisplacement} {answer : AllocAnswer w} {pages : List (FunchookPage w)} {idx : ℕ}
    {page : FunchookPage w} (h : FoundPage P fh s addr disp answer pages idx page s') :
    page.used < P.numEntriesInPage := by
  cases h with
  | reused _ hused => exact hused
  | fresh => exact P.numEntries_pos

theorem FoundPage.avail {fh : FunchookT w} {s s' : World w} {addr : Addr w}
    {disp : P.IpDisplacement} {answer : AllocAnswer w} {pages : List (FunchookPage w)} {idx : ℕ}
    {page : FunchookPage w} (h : FoundPage P fh s addr disp answer pages idx page s') :
    P.funchookPageAvail (P.slotAddr page.addr page.used) addr disp = true := by
  cases h with
  | reused _ _ havail => exact havail
  | fresh _ havail => exact havail

theorem getPage_spec (fh : FunchookT w) (s : World w) (addr : Addr w) (disp : P.IpDisplacement)
    (answer : AllocAnswer w) :
    (∃ f s', getPage P fh s addr disp answer = .fail f s' ∧ FailedPrepareWorld P s answer s' ∧
        (f.code = errorSuccess → ∃ f, answer.alloc = .error f ∧ f.code = errorSuccess)) ∨
      ∃ pages idx page s', getPage P fh s addr disp answer = .got pages idx s' ∧
        FoundPage P fh s addr disp answer pages idx page s' := by
  have hspace : errorNoSpaceNearTargetAddr ≠ errorSuccess := by decide
  unfold getPage
  cases hfind : fh.pageList.findIdx? (reusable P addr disp) with
  | some idx =>
    obtain ⟨hlt, hok, -⟩ := List.findIdx?_eq_some_iff_getElem.mp hfind
    simp only [reusable, Bool.and_eq_true, decide_eq_true_eq] at hok
    exact Or.inr ⟨_, _, _, _, rfl, .reused (List.getElem?_eq_getElem hlt) hok.1 hok.2⟩
  | none =>
    cases halloc : answer.alloc with
    | error f => exact Or.inl ⟨_, _, rfl, .same, fun hcode => ⟨f, rfl, hcode⟩⟩
    | ok p =>
      dsimp only
      split
      · rename_i havail
        exact Or.inr ⟨_, _, _, _, rfl, .fresh halloc havail⟩
      · cases hfree : answer.free with
        | ok => exact Or.inl ⟨_, _, rfl, .returned halloc hfree, fun hcode => absurd hcode hspace⟩
        | fail message =>
          exact Or.inl ⟨_, _, rfl, .leaked halloc hfree, fun hcode => absurd hcode hspace⟩

/-- The entry a successful prepare puts in its slot. -/
def preparedEntry (P : Platform w) (s : World w) (targetFunc func : Addr w)
    (params : FunchookParams w) (disp : P.IpDisplacement) (trampoline : List Byte)
    (slot : Addr w) : FunchookEntry w :=
  P.funchookFixCode slot (fillEntry P s targetFunc func params trampoline) disp

/-- A successful prepare, with everything it computed. -/
structure Prepared (P : Platform w) (fh : FunchookT w) (s : World w) (targetFunc : Addr w)
    (params : FunchookParams w) (answer : AllocAnswer w) (r : PrepareResult w) where
  disp : P.IpDisplacement
  trampoline : List Byte
  pages : List (FunchookPage w)
  idx : ℕ
  page : FunchookPage w
  world : World w
  func : Addr w
  entry : FunchookEntry w
  not_installed : fh.installed = false
  resolved : func = P.funchookResolveFunc s.bytes targetFunc
  built : P.funchookMakeTrampoline s.bytes func = .ok (disp, trampoline)
  found : FoundPage P fh s func disp answer pages idx page world
  writable : page.prot = .readWrite
  entry_eq : entry = preparedEntry P world targetFunc func params disp trampoline
    (P.slotAddr page.addr page.used)
  result : r = ⟨⟨errorSuccess, { fh with pageList := addEntry pages idx entry },
    storeEntry P world (P.slotAddr page.addr page.used) entry⟩,
    P.trampolineAddr (P.slotAddr page.addr page.used)⟩

/-- The entry that a prepare of the function with these parameters makes for the slot, in memory
where it finds the code. -/
def EntryMade (P : Platform w) (s : World w) (targetFunc : Addr w) (params : FunchookParams w)
    (slot : Addr w) (e : FunchookEntry w) : Prop :=
  ∃ disp trampoline s', P.funchookMakeTrampoline s.bytes
      (P.funchookResolveFunc s.bytes targetFunc) = .ok (disp, trampoline) ∧
    e = preparedEntry P s' targetFunc (P.funchookResolveFunc s.bytes targetFunc) params disp
      trampoline slot

theorem Prepared.made {fh : FunchookT w} {s : World w} {targetFunc : Addr w}
    {params : FunchookParams w} {answer : AllocAnswer w} {r : PrepareResult w}
    (p : Prepared P fh s targetFunc params answer r) :
    EntryMade P s targetFunc params (P.slotAddr p.page.addr p.page.used) p.entry :=
  ⟨p.disp, p.trampoline, p.world, p.resolved ▸ p.built, p.resolved ▸ p.entry_eq⟩

/-- A prepare that returns without filling an entry. -/
structure PrepareRefused (P : Platform w) (fh : FunchookT w) (s : World w) (targetFunc : Addr w)
    (answer : AllocAnswer w) (r : PrepareResult w) : Prop where
  pageList : r.fh.pageList = fh.pageList
  installed : r.fh.installed = fh.installed
  targetFunc_eq : r.targetFunc = targetFunc
  world : FailedPrepareWorld P s answer r.world

/-- The failures that a prepare may pass on have a code other than that of success. -/
def FailuresNonzero (P : Platform w) (s : World w) (targetFunc : Addr w) (answer : AllocAnswer w) :
    Prop :=
  (∀ f, P.funchookMakeTrampoline s.bytes (P.funchookResolveFunc s.bytes targetFunc) = .error f →
    f.code ≠ errorSuccess) ∧ ∀ f, answer.alloc = .error f → f.code ≠ errorSuccess

theorem prepare_cases_rv {fh : FunchookT w} {s : World w} {targetFunc : Addr w}
    {params : FunchookParams w} {answer : AllocAnswer w} {r : PrepareResult w}
    (h : funchookPrepareInternal P fh s targetFunc params answer = some r) :
    (PrepareRefused P fh s targetFunc answer r ∧
        (FailuresNonzero P s targetFunc answer → r.rv ≠ errorSuccess)) ∨
      Nonempty (Prepared P fh s targetFunc params answer r) := by
  unfold funchookPrepareInternal at h
  split at h
  · cases h
    exact Or.inl ⟨⟨rfl, rfl, rfl, .same⟩, fun _ => show errorAlreadyInstalled ≠ _ by decide⟩
  · rename_i hinst
    dsimp only at h
    cases hmake : P.funchookMakeTrampoline s.bytes (P.funchookResolveFunc s.bytes targetFunc) with
    | error f =>
      rw [hmake] at h
      cases h
      exact Or.inl ⟨⟨rfl, rfl, rfl, .same⟩, fun hnonzero => hnonzero.1 f hmake⟩
    | ok built =>
      obtain ⟨disp, trampoline⟩ := built
      rw [hmake] at h
      dsimp only at h
      rcases getPage_spec fh s (P.funchookResolveFunc s.bytes targetFunc) disp answer with
        ⟨f, s', hget, hw, hcode⟩ | ⟨pages, idx, page, s', hget, hfound⟩
      · rw [hget] at h
        cases h
        refine Or.inl ⟨⟨rfl, rfl, rfl, hw⟩, fun hnonzero hrv => ?_⟩
        obtain ⟨f', halloc, hzero⟩ := hcode hrv
        exact hnonzero.2 f' halloc hzero
      · rw [hget] at h
        dsimp only at h
        rw [hfound.get] at h
        dsimp only at h
        split at h
        · rename_i hprot
          exact Or.inr ⟨⟨disp, trampoline, pages, idx, page, s', _, _, by simpa using hinst, rfl,
            hmake, hfound, hprot, rfl, (Option.some.inj h).symm⟩⟩
        · cases h

/-- **Prepare.** A prepare that returns has been refused or has filled one entry. -/
theorem prepare_cases {fh : FunchookT w} {s : World w} {targetFunc : Addr w}
    {params : FunchookParams w} {answer : AllocAnswer w} {r : PrepareResult w}
    (h : funchookPrepareInternal P fh s targetFunc params answer = some r) :
    PrepareRefused P fh s targetFunc answer r ∨
      Nonempty (Prepared P fh s targetFunc params answer r) :=
  (prepare_cases_rv h).imp_left And.left

/-- A prepare that returns 0 has filled an entry. -/
theorem prepare_success {fh : FunchookT w} {s : World w} {targetFunc : Addr w}
    {params : FunchookParams w} {answer : AllocAnswer w} {r : PrepareResult w}
    (hnonzero : FailuresNonzero P s targetFunc answer)
    (h : funchookPrepareInternal P fh s targetFunc params answer = some r)
    (hrv : r.rv = errorSuccess) : Nonempty (Prepared P fh s targetFunc params answer r) :=
  (prepare_cases_rv h).resolve_left fun href => href.2 hnonzero hrv

/-- No prepare changes `installed`. -/
theorem prepare_installed {fh : FunchookT w} {s : World w} {targetFunc : Addr w}
    {params : FunchookParams w} {answer : AllocAnswer w} {r : PrepareResult w}
    (h : funchookPrepareInternal P fh s targetFunc params answer = some r) :
    r.fh.installed = fh.installed := by
  rcases prepare_cases h with href | ⟨⟨p⟩⟩
  · exact href.installed
  · rw [p.result]

/-! ## Destroy -/

theorem destroy_installed (fh : FunchookT w) (s : World w) (os : List OsAnswer)
    (h : fh.installed = true) : funchookDestroyInternal P fh s os = (errorAlreadyInstalled, s) :=
  if_pos h

theorem destroy_not_installed (fh : FunchookT w) (s : World w) (os : List OsAnswer)
    (h : fh.installed = false) :
    funchookDestroyInternal P fh s os = (errorSuccess, freePages P fh.pageList s os) :=
  if_neg (by rw [h]; decide)

theorem freePages_bytes (pages : List (FunchookPage w)) (s : World w) (os : List OsAnswer) :
    (freePages P pages s os).bytes = s.bytes := by
  induction pages generalizing s os with
  | nil => rfl
  | cons page pages ih =>
    unfold freePages
    split
    · exact ih _ _
    · exact ih _ _

/-- Freeing pages unmaps nothing else. -/
theorem freePages_mapped {pages : List (FunchookPage w)} {s : World w} (os : List OsAnswer)
    {a : Addr w} (ha : s.mapped a = true)
    (h : ∀ page ∈ pages, ¬ InRange page.addr P.pageSize a) :
    (freePages P pages s os).mapped a = true := by
  induction pages generalizing s os with
  | nil => exact ha
  | cons page pages ih =>
    have hrest : ∀ page' ∈ pages, ¬ InRange page'.addr P.pageSize a := fun page' hpage' =>
      h page' (List.mem_cons_of_mem _ hpage')
    unfold freePages
    split
    · refine ih _ ?_ hrest
      simp [World.unmapPage, ha, h page List.mem_cons_self]
    · exact ih _ ha hrest

end Funchook
