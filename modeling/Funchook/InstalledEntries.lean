import Funchook.HookCaller

/-!
# What stands in memory after an install

Prepares fill slots and never touch a target, so every entry of the handle is the one that
`funchook_fix_code` made for its slot. A successful install then copies the new code of every entry
to its target. When the patched ranges do not meet each other, and meet the pages of the handle in
trampolines at most, every target ends up with its own new code and every slot keeps its transit
code.
-/

namespace Funchook

open ByteMemory Runs

variable {w : ℕ} {P : Platform w}

/-- The runs that only prepare. -/
abbrev PrepareRun (P : Platform w) (s₀ : World w) : HandleState w → Prop :=
  Run (HandleStep P) (fun _ c => c.isPrepare = true) (.start s₀)

/-- The entry is the one that a prepare makes for the slot. -/
def BuiltFor (P : Platform w) (slot : Addr w) (e : FunchookEntry w) : Prop :=
  ∃ (s s' : World w) (targetFunc : Addr w) (params : FunchookParams w) (disp : P.IpDisplacement)
    (trampoline : List Byte),
    P.funchookMakeTrampoline s.bytes e.targetFunc = .ok (disp, trampoline) ∧
      P.funchookPageAvail slot e.targetFunc disp = true ∧
        e = preparedEntry P s' targetFunc e.targetFunc params disp trampoline slot

theorem builtFor_prepared {fh : FunchookT w} {s : World w} {targetFunc : Addr w}
    {params : FunchookParams w} {answer : AllocAnswer w} {r : PrepareResult w}
    (p : Prepared P fh s targetFunc params answer r) :
    BuiltFor P (P.slotAddr p.page.addr p.page.used) p.entry := by
  have htarget : p.entry.targetFunc = p.func := by
    rw [p.entry_eq, preparedEntry_targetFunc]
  refine ⟨s, p.world, targetFunc, params, p.disp, p.trampoline, ?_, ?_, ?_⟩
  · rw [htarget]
    exact p.built
  · rw [htarget]
    exact p.found.avail
  · rw [htarget]
    exact p.entry_eq

/-- The pages are sound and every entry was made for its slot. -/
structure EntriesInv (P : Platform w) (st : HandleState w) : Prop where
  pages : PagesInv P st
  built : ∀ slot e, EntryAt P st.fh slot e → BuiltFor P slot e

theorem entriesInv_start (P : Platform w) (s₀ : World w) : EntriesInv P (.start s₀) where
  pages := pagesInv_start P s₀
  built := by
    intro slot e he
    obtain ⟨page, hpage, -⟩ := he
    cases hpage

theorem entriesInv_prepare {st : HandleState w} (hinv : EntriesInv P st) {targetFunc : Addr w}
    {params : FunchookParams w} {answer : AllocAnswer w} {r : PrepareResult w}
    (hfresh : answer.Fresh P st.world)
    (h : funchookPrepareInternal P st.fh st.world targetFunc params answer = some r) (flag : Bool) :
    EntriesInv P ⟨r.fh, r.world, flag⟩ := by
  refine ⟨(pagesInv_prepare hinv.pages hfresh h flag).1, fun slot e he => ?_⟩
  rcases prepare_cases h with href | ⟨⟨p⟩⟩
  · exact hinv.built slot e (entryAt_congr (congrArg pageContents href.pageList) he)
  · rcases (entryAt_prepared p).mp he with hold | ⟨rfl, rfl⟩
    · exact hinv.built slot e hold
    · exact builtFor_prepared p

/-- **Step.** A prepare, successful or not, keeps the invariant. -/
theorem entriesInv_step {st st' : HandleState w} {c : Call w} (hinv : EntriesInv P st)
    (hcond : c.isPrepare = true) (hstep : HandleStep P st c st') : EntriesInv P st' := by
  obtain ⟨hfresh, hcall⟩ := hstep
  obtain ⟨r, hr, rfl⟩ := Option.map_eq_some_iff.mp hcall
  cases c with
  | prepare targetFunc hookFunc answer =>
    obtain ⟨q, hq, rfl⟩ := Option.map_eq_some_iff.mp hr
    exact entriesInv_prepare hinv hfresh hq _
  | prepareWithParams targetFunc params answer =>
    obtain ⟨q, hq, rfl⟩ := Option.map_eq_some_iff.mp hr
    exact entriesInv_prepare hinv hfresh hq _
  | install os => cases hcond
  | uninstall os => cases hcond

/-- **Run.** -/
theorem entriesInv_run {s₀ : World w} {st : HandleState w} (hrun : PrepareRun P s₀ st) :
    EntriesInv P st :=
  hrun.invariant (entriesInv_start P s₀) fun _ _ _ hinv hcond hstep =>
    entriesInv_step hinv hcond hstep

/-! ## After an install -/

/-- The patched ranges of two entries share no byte. -/
def PatchesApart (P : Platform w) (e e' : FunchookEntry w) : Prop :=
  RangesDisjoint e.targetFunc (P.patchCodeByteSize e) e'.targetFunc (P.patchCodeByteSize e')

instance : Std.Symm (PatchesApart P) := ⟨fun _ _ h => rangesDisjoint_symm h⟩

/-- A byte of a page that an install patches belongs to the trampoline of an entry. -/
def PatchesTrampolinesOnly (P : Platform w) (fh : FunchookT w) : Prop :=
  ∀ e ∈ fh.entries, ∀ page ∈ fh.pageList, ∀ a, P.TargetByte e a → InRange page.addr P.pageSize a →
    ∃ slot e', EntryAt P fh slot e' ∧ InRange (P.trampolineAddr slot) P.trampolineByteSize a

/-- The transit code and the trampoline of a slot are apart. -/
theorem transit_trampoline_apart (P : Platform w) (slot : Addr w) :
    RangesDisjoint slot P.transitByteSize (P.trampolineAddr slot) P.trampolineByteSize := by
  have hfits := P.transit_fits
  have hfits' := P.trampoline_fits
  have hsize := entrySize_le P
  have hinner := @rangesDisjoint_of_inner w slot 0 P.transitByteSize P.trampolineOffset
    P.trampolineByteSize (by omega) (by omega)
  rwa [BitVec.add_zero] at hinner

/-- No patch meets the transit code of an entry. -/
theorem transit_not_patched {st : HandleState w} (hinv : PagesInv P st)
    (honly : PatchesTrampolinesOnly P st.fh) {slot : Addr w} {e : FunchookEntry w}
    (he : EntryAt P st.fh slot e) {a : Addr w} (ha : InRange slot P.transitByteSize a) :
    ∀ e' ∈ st.fh.entries, ¬ P.TargetByte e' a := by
  intro e' he' htarget
  have hslot := transit_inRange_slot ha
  obtain ⟨-, page, hpage, hin⟩ := hinv.slot_mapped he hslot
  obtain ⟨slot', e'', he'', ha'⟩ := honly e' he' page hpage a htarget hin
  rcases hinv.entries_apart he he'' with ⟨rfl, -⟩ | hapart
  · exact transit_trampoline_apart P slot a ha ha'
  · exact hapart a hslot (trampoline_inRange_slot ha')

/-- The code of an installed entry: its patch at the target, its transit code in the slot. -/
structure CodeInstalled (P : Platform w) (m : Mem w) (slot : Addr w) (e : FunchookEntry w) :
    Prop where
  patch : Holds m e.targetFunc (P.newPatch e).code
  transit : Holds m slot e.transit

theorem installed_patch {es : List (FunchookEntry w)} {m : Mem w}
    (hapart : es.Pairwise (PatchesApart P)) {e : FunchookEntry w} (he : e ∈ es)
    (hsize : (P.newPatch e).code.length ≤ 2 ^ w) :
    Holds (writeAll (es.map P.newPatch) m) e.targetFunc (P.newPatch e).code := by
  refine holds_of_bytes fun i hi => ?_
  have hcovers : (P.newPatch e).Covers (e.targetFunc + BitVec.ofNat w i) := inRange_add hi hsize
  refine writeAll_agree (fun p hp hp' => ?_) ⟨_, List.mem_map_of_mem he, hcovers⟩
  obtain ⟨e', he', rfl⟩ := List.mem_map.mp hp
  by_cases hsame : e' = e
  · rw [hsame]
    exact Patch.byteAt_add hi hsize
  · exact absurd (newPatch_covers hcovers)
      (hapart.forall he' he hsame _ (newPatch_covers hp'))

/-- Install moves no entry. -/
theorem install_entryAt (fh : FunchookT w) (s : World w) (os : List OsAnswer) {slot : Addr w}
    {e : FunchookEntry w} :
    EntryAt P (funchookInstallInternal P fh s os).fh slot e ↔ EntryAt P fh slot e := by
  cases hinst : fh.installed with
  | true => rw [install_installed fh s os hinst]
  | false =>
    obtain ⟨-, -, hp, -⟩ := install_spec (P := P) fh s os hinst
    exact ⟨entryAt_congr hp, entryAt_congr hp.symm⟩

/-- What a successful install leaves in memory. -/
theorem install_bytes {fh : FunchookT w} {s : World w} {os : List OsAnswer}
    (hrv : (funchookInstallInternal P fh s os).rv = errorSuccess) :
    (funchookInstallInternal P fh s os).world.bytes =
      writeAll (fh.entries.map P.newPatch) s.bytes := by
  cases hinst : fh.installed with
  | true =>
    rw [install_installed fh s os hinst] at hrv
    cases hrv
  | false =>
    obtain ⟨hb, -, -, ⟨-, hcode, -⟩ | ⟨hall, -, -⟩⟩ := install_spec (P := P) fh s os hinst
    · rw [hcode] at hrv
      cases hrv
    · rw [hb, installReach_all hall]
      rfl

/-- A successful install leaves the transit code of every entry in its slot. -/
theorem install_transit {st : HandleState w} (hinv : PagesInv P st)
    (honly : PatchesTrampolinesOnly P st.fh) {os : List OsAnswer}
    (hrv : (funchookInstallInternal P st.fh st.world os).rv = errorSuccess)
    {slot : Addr w} {e : FunchookEntry w} (he : EntryAt P st.fh slot e) :
    Holds (funchookInstallInternal P st.fh st.world os).world.bytes slot e.transit := by
  rw [install_bytes hrv]
  have htransit := hinv.transit e he.mem
  have hlen : e.transit.length ≤ 2 ^ w := by
    have := P.transit_fits
    have := P.trampoline_fits
    have := entrySize_le P
    omega
  exact Holds.congr (hinv.stored slot e he).transit hlen fun a ha =>
    writeAll_newPatch_frame (transit_not_patched hinv honly he (inRange_mono ha htransit))

/-- **Install.** A successful install leaves the code of every entry in place. -/
theorem install_code {st : HandleState w} (hinv : PagesInv P st)
    (hapart : st.fh.entries.Pairwise (PatchesApart P)) (honly : PatchesTrampolinesOnly P st.fh)
    {os : List OsAnswer} (hrv : (funchookInstallInternal P st.fh st.world os).rv = errorSuccess)
    {slot : Addr w} {e : FunchookEntry w} (he : EntryAt P st.fh slot e)
    (hsize : (P.newPatch e).code.length ≤ 2 ^ w) :
    CodeInstalled P (funchookInstallInternal P st.fh st.world os).world.bytes slot e := by
  refine ⟨?_, install_transit hinv honly hrv he⟩
  rw [install_bytes hrv]
  exact installed_patch hapart he.mem hsize

end Funchook
