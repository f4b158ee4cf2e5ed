import Funchook.InstalledEntries

/-!
# From the prepare of a hook to its install

The entry that a prepare fills stays in its slot through the prepares after it, and the memory of
the program is not touched before the install. A successful install whose patches lie outside the
pages of the handle leaves the patch at the target, and the transit code and the trampoline in the
slot.
-/

namespace Funchook

open ByteMemory Runs

variable {w : ℕ} {P : Platform w} {s₀ : World w}

/-- What a prepare does to the state of the handle. -/
theorem prepare_step {st st' : HandleState w} {c : Call w} (hcond : c.isPrepare = true)
    (hstep : HandleStep P st c st') :
    ∃ targetFunc params answer r, answer.Fresh P st.world ∧
      funchookPrepareInternal P st.fh st.world targetFunc params answer = some r ∧
        st' = ⟨r.fh, r.world, st.installFailed⟩ := by
  obtain ⟨hfresh, hcall⟩ := hstep
  obtain ⟨r, hr, rfl⟩ := Option.map_eq_some_iff.mp hcall
  cases c with
  | prepare targetFunc hookFunc answer =>
    obtain ⟨q, hq, rfl⟩ := Option.map_eq_some_iff.mp hr
    exact ⟨targetFunc, _, answer, q, hfresh, hq, rfl⟩
  | prepareWithParams targetFunc params answer =>
    obtain ⟨q, hq, rfl⟩ := Option.map_eq_some_iff.mp hr
    exact ⟨targetFunc, params, answer, q, hfresh, hq, rfl⟩
  | install os => cases hcond
  | uninstall os => cases hcond

/-! ## Prepares -/

/-- The state between prepares: no install has been tried, and the pages are sound. -/
structure Preparing (P : Platform w) (s₀ : World w) (st : HandleState w) : Prop where
  entries : EntriesInv P st
  restore : RestoreInv P s₀ st
  untried : st.installFailed = false

theorem preparing_start (P : Platform w) (s₀ : World w) : Preparing P s₀ (.start s₀) where
  entries := entriesInv_start P s₀
  restore := restoreInv_start P s₀
  untried := rfl

theorem preparing_prepare {st : HandleState w} (hinv : Preparing P s₀ st) {targetFunc : Addr w}
    {params : FunchookParams w} {answer : AllocAnswer w} {r : PrepareResult w}
    (hfresh : answer.Fresh P st.world)
    (h : funchookPrepareInternal P st.fh st.world targetFunc params answer = some r) :
    Preparing P s₀ ⟨r.fh, r.world, st.installFailed⟩ := by
  refine ⟨entriesInv_prepare hinv.entries hfresh h _, ?_, hinv.untried⟩
  rw [hinv.untried]
  exact restoreInv_prepare hinv.restore hinv.untried hfresh h

theorem preparing_run {st : HandleState w} (hrun : PrepareRun P s₀ st) : Preparing P s₀ st := by
  refine hrun.invariant (preparing_start P s₀) fun st c st' hinv hcond hstep => ?_
  obtain ⟨targetFunc, params, answer, r, hfresh, hprepare, rfl⟩ := prepare_step hcond hstep
  exact preparing_prepare hinv hfresh hprepare

/-- The prepares that follow a state. -/
abbrev PreparesAfter (P : Platform w) : HandleState w → HandleState w → Prop :=
  Run (HandleStep P) fun _ c => c.isPrepare = true

/-- **Prepares.** An entry stays in its slot through the prepares that follow. -/
theorem preparing_entryAt {st st' : HandleState w} (hinv : Preparing P s₀ st) {slot : Addr w}
    {e : FunchookEntry w} (he : EntryAt P st.fh slot e) (hafter : PreparesAfter P st st') :
    Preparing P s₀ st' ∧ EntryAt P st'.fh slot e := by
  induction hafter with
  | start => exact ⟨hinv, he⟩
  | call _ c hcond hstep ih =>
    obtain ⟨hprepared, hentry⟩ := ih
    obtain ⟨targetFunc, params, answer, r, hfresh, hprepare, rfl⟩ := prepare_step hcond hstep
    obtain ⟨-, hkept⟩ := pagesInv_prepare hprepared.entries.pages hfresh hprepare _
    exact ⟨preparing_prepare hprepared hfresh hprepare, (hkept slot e hentry).1⟩

/-! ## The install -/

/-- The code of a hook in the memory `m`, where the program is the one of `m₀` but for patches. -/
structure HookInPlace (P : Platform w) (s₀ : World w) (fh : FunchookT w) (m₀ m : Mem w)
    (slot : Addr w) (e : FunchookEntry w) : Prop where
  code : CodeInstalled P m slot e
  trampoline : Holds m (P.trampolineAddr slot) e.trampoline
  program : ∀ a, s₀.mapped a = true → (∀ e' ∈ fh.entries, ¬ P.TargetByte e' a) → m a = m₀ a

/-- Patches outside the pages meet no slot. -/
theorem slot_not_patched {st : HandleState w} (hinv : PagesInv P st)
    (houtside : TargetsOutside P st.fh) {slot : Addr w} {e : FunchookEntry w}
    (he : EntryAt P st.fh slot e) {a : Addr w} (ha : InRange slot P.entrySize a) :
    ∀ e' ∈ st.fh.entries, ¬ P.TargetByte e' a := by
  intro e' he' htarget
  obtain ⟨-, page, hpage, hin⟩ := hinv.slot_mapped he ha
  exact houtside e' he' page hpage a htarget hin

/-- A successful install leaves the trampoline of every entry in its slot. -/
theorem install_trampoline {st : HandleState w} (hinv : PagesInv P st)
    (houtside : TargetsOutside P st.fh) {os : List OsAnswer}
    (hrv : (funchookInstallInternal P st.fh st.world os).rv = errorSuccess)
    {slot : Addr w} {e : FunchookEntry w} (he : EntryAt P st.fh slot e) :
    Holds (funchookInstallInternal P st.fh st.world os).world.bytes (P.trampolineAddr slot)
      e.trampoline := by
  rw [install_bytes hrv]
  have htrampoline := hinv.trampoline e he.mem
  have hlen : e.trampoline.length ≤ 2 ^ w := by
    have := P.trampoline_fits
    have := entrySize_le P
    omega
  exact Holds.congr (hinv.stored slot e he).trampoline hlen fun a ha =>
    writeAll_newPatch_frame (slot_not_patched hinv houtside he
      (trampoline_inRange_slot (inRange_mono ha htrampoline)))

/-- **Install.** The code of an entry is in place after a successful install. -/
theorem install_inPlace {st st' : HandleState w} (hst : Preparing P s₀ st)
    (hnot : st.fh.installed = false) (hinv : Preparing P s₀ st')
    (hapart : st'.fh.entries.Pairwise (PatchesApart P)) (houtside : TargetsOutside P st'.fh)
    {os : List OsAnswer}
    (hrv : (funchookInstallInternal P st'.fh st'.world os).rv = errorSuccess) {slot : Addr w}
    {e : FunchookEntry w} (he : EntryAt P st'.fh slot e)
    (hsize : (P.newPatch e).code.length ≤ 2 ^ w) :
    HookInPlace P s₀ st'.fh st.world.bytes
      (funchookInstallInternal P st'.fh st'.world os).world.bytes slot e where
  code := install_code hinv.entries.pages hapart
    (fun e' he' page hpage a hta ha => absurd ha (houtside e' he' page hpage a hta)) hrv he hsize
  trampoline := install_trampoline hinv.entries.pages houtside hrv he
  program a ha hne := by
    rw [install_bytes hrv, writeAll_newPatch_frame hne, hinv.restore.frame a ha hne]
    exact (hst.restore.clean hnot hst.untried a ha).symm

end Funchook
