import Funchook.ManyHandles
import Funchook.EntrySlots
import Funchook.Lib.Ownership

/-!
# Who owns the mapped pages

The pages of a handle are mapped by its prepares and unmapped when it is destroyed. Whatever calls
of the memory layer fail, a page of a handle stays mapped as long as the handle is there, shares no
byte with what was mapped before, with another page of the handle or with a page of another one,
and the destruction of one handle unmaps nothing of the others. A page is lost only where
`funchook_page_free` fails, as neither of its two callers can give the page back then.
-/

namespace Funchook

open ByteMemory Runs Ownership

variable {w : ℕ} (P : Platform w)

/-- The bytes that are mapped. -/
def World.held (s : World w) : Set (Addr w) := {a | s.mapped a = true}

def FunchookT.pageAddrs (fh : FunchookT w) : List (Addr w) := fh.pageList.map FunchookPage.addr

/-- The bytes of the pages of a handle. -/
def pagesOf (fh : Option (FunchookT w)) : Set (Addr w) :=
  {a | ∃ f, fh = some f ∧ ∃ p ∈ f.pageAddrs, InRange p P.pageSize a}

def ManyState.owned (st : ManyState w) (i : ℕ) : Set (Addr w) := pagesOf P (st.handles i)

/-- No call of `funchook_page_free` fails. -/
def ManyCall.FreesSucceed : ManyCall w → Prop
  | .create _ => True
  | .on _ (.prepare _ _ answer) => answer.free = .ok
  | .on _ (.prepareWithParams _ _ answer) => answer.free = .ok
  | .on _ (.install _) => True
  | .on _ (.uninstall _) => True
  | .destroy _ os => ∀ a ∈ os, a = .ok

/-- The pages of the handles are accounted for, and where no free fails nothing else is mapped that
was not mapped at the start. -/
structure PagesOwned (P : Platform w) (frees : Prop) (s₀ : World w) (st : ManyState w) : Prop where
  accounted : Accounted s₀.held st.world.held (st.owned P)
  apart : ∀ i fh, st.handles i = some fh → fh.pageAddrs.Pairwise (PagesApart P)
  complete : frees → Complete s₀.held st.world.held (st.owned P)

variable {P} {s₀ : World w} {st : ManyState w} {frees : Prop}

theorem pagesOf_none : pagesOf P (none : Option (FunchookT w)) = ∅ :=
  Set.eq_empty_of_forall_notMem fun _ ⟨_, h, _⟩ => by cases h

theorem mem_pagesOf {fh : FunchookT w} {a : Addr w} :
    a ∈ pagesOf P (some fh) ↔ ∃ p ∈ fh.pageAddrs, InRange p P.pageSize a :=
  ⟨fun ⟨_, h, hp⟩ => Option.some.inj h ▸ hp, fun hp => ⟨fh, rfl, hp⟩⟩

theorem pagesOf_congr {fh fh' : FunchookT w} (h : fh'.pageAddrs = fh.pageAddrs) :
    pagesOf P (some fh') = pagesOf P (some fh) := by
  ext a
  rw [mem_pagesOf, mem_pagesOf, h]

theorem pageAddrs_of_contents {fh fh' : FunchookT w}
    (h : pageContents fh'.pageList = pageContents fh.pageList) : fh'.pageAddrs = fh.pageAddrs := by
  have haddrs : ∀ pages : List (FunchookPage w),
      pages.map FunchookPage.addr = (pageContents pages).map Prod.fst := fun pages => by
    rw [pageContents, List.map_map]
    rfl
  rw [FunchookT.pageAddrs, haddrs, h, ← haddrs, FunchookT.pageAddrs]

theorem owned_setHandle (world : World w) (i : ℕ) (fh : Option (FunchookT w)) :
    (st.setHandle world i fh).owned P = Function.update (st.owned P) i (pagesOf P fh) := by
  funext j
  by_cases hj : j = i
  · subst hj
    rw [ManyState.owned, setHandle_self, Function.update_self]
  · rw [ManyState.owned, setHandle_of_ne _ _ hj, Function.update_of_ne hj, ManyState.owned]

theorem pagesOwned_start (P : Platform w) (frees : Prop) (s₀ : World w) :
    PagesOwned P frees s₀ (.start s₀) := by
  have howned : (ManyState.start s₀).owned P = fun _ => ∅ := funext fun _ => pagesOf_none
  refine ⟨?_, (fun _ _ h => by cases h), fun _ => ?_⟩
  · rw [howned]
    exact accounted_start _
  · rw [howned]
    exact complete_start _

/-! ## The calls -/

section Calls

variable {i : ℕ} {fh fh' : FunchookT w} {world : World w}

theorem apart_setHandle (hinv : PagesOwned P frees s₀ st) {next : Option (FunchookT w)}
    (h : ∀ f, next = some f → f.pageAddrs.Pairwise (PagesApart P)) (j : ℕ) (f : FunchookT w)
    (hf : (st.setHandle world i next).handles j = some f) :
    f.pageAddrs.Pairwise (PagesApart P) := by
  rcases setHandle_cases hf with ⟨-, hnext⟩ | ⟨-, hf⟩
  · exact h f hnext
  · exact hinv.apart j f hf

/-- A call that leaves the pages of its handle where they are; more may be mapped. -/
theorem pagesOwned_keep (hinv : PagesOwned P frees s₀ st) (hfh : st.handles i = some fh)
    (haddrs : fh'.pageAddrs = fh.pageAddrs) (hsub : st.world.held ⊆ world.held)
    (hsame : frees → world.held = st.world.held) :
    PagesOwned P frees s₀ (st.setHandle world i (some fh')) := by
  have howned : (st.setHandle world i (some fh')).owned P = st.owned P := by
    rw [owned_setHandle, pagesOf_congr haddrs, ← hfh]
    exact Function.update_eq_self i (st.owned P)
  refine ⟨?_, apart_setHandle hinv ?_, fun hfrees => ?_⟩
  · rw [howned]
    exact hinv.accounted.grow hsub
  · rintro f ⟨⟩
    rw [haddrs]
    exact hinv.apart i fh hfh
  · rw [howned, show (st.setHandle world i (some fh')).world.held = _ from hsame hfrees]
    exact hinv.complete hfrees

/-- A call that maps a page. -/
theorem pagesOwned_map (hinv : PagesOwned P frees s₀ st) (hfh : st.handles i = some fh)
    {p : Addr w} (hfresh : st.world.Fresh p P.pageSize)
    (haddrs : fh'.pageAddrs = p :: fh.pageAddrs)
    (hmapped : world.mapped = (st.world.mapPage p P.pageSize).mapped) :
    PagesOwned P frees s₀ (st.setHandle world i (some fh')) := by
  have hheld : world.held = st.world.held ∪ {a | InRange p P.pageSize a} := by
    ext a
    show world.mapped a = true ↔ _ ∨ _
    rw [hmapped, World.mapPage, Bool.or_eq_true, decide_eq_true_eq]
    exact Or.comm
  have hpages : pagesOf P (some fh') = st.owned P i ∪ {a | InRange p P.pageSize a} := by
    ext a
    rw [mem_pagesOf, haddrs, ManyState.owned, hfh]
    constructor
    · rintro ⟨q, hq, ha⟩
      rcases List.mem_cons.mp hq with rfl | hq
      · exact Or.inr ha
      · exact Or.inl (mem_pagesOf.mpr ⟨q, hq, ha⟩)
    · rintro (ha | ha)
      · obtain ⟨q, hq, ha⟩ := mem_pagesOf.mp ha
        exact ⟨q, List.mem_cons_of_mem p hq, ha⟩
      · exact ⟨p, List.mem_cons_self, ha⟩
  have hnew : ∀ a ∈ {a | InRange p P.pageSize a}, a ∉ st.world.held := fun a ha hheld => by
    have hmapped : st.world.mapped a = true := hheld
    rw [hfresh a ha] at hmapped
    cases hmapped
  refine ⟨?_, apart_setHandle hinv ?_, fun hfrees => ?_⟩
  · rw [owned_setHandle, hpages]
    exact hheld ▸ hinv.accounted.acquire i hnew
  · rintro f ⟨⟩
    rw [haddrs]
    refine List.pairwise_cons.mpr ⟨fun q hq a ha ha' => ?_, hinv.apart i fh hfh⟩
    have hown : a ∈ st.owned P i := by
      rw [ManyState.owned, hfh]
      exact mem_pagesOf.mpr ⟨q, hq, ha'⟩
    exact hnew a ha (hinv.accounted.owned i hown)
  · rw [owned_setHandle, hpages]
    exact hheld ▸ (hinv.complete hfrees).acquire i

theorem pagesOwned_prepare (hinv : PagesOwned P frees s₀ st) (hfh : st.handles i = some fh)
    {targetFunc : Addr w} {params : FunchookParams w} {answer : AllocAnswer w}
    {r : PrepareResult w} (hfresh : answer.Fresh P st.world)
    (hfree : frees → answer.free = .ok)
    (h : funchookPrepareInternal P fh st.world targetFunc params answer = some r) :
    PagesOwned P frees s₀ (st.setHandle r.world i (some r.fh)) := by
  rcases prepare_cases h with href | ⟨⟨p⟩⟩
  · have haddrs : r.fh.pageAddrs = fh.pageAddrs := congrArg (List.map _) href.pageList
    have hworld := href.world
    generalize r.world = world at hworld ⊢
    cases hworld with
    | same => exact pagesOwned_keep hinv hfh haddrs subset_rfl fun _ => rfl
    | @returned p hp =>
      have hmapped := unmapPage_mapPage_mapped (hfresh p hp)
      have hheld : ((st.world.mapPage p P.pageSize).unmapPage p P.pageSize).held =
          st.world.held := by
        rw [World.held, hmapped, World.held]
      exact pagesOwned_keep hinv hfh haddrs hheld.ge fun _ => hheld
    | leaked hp hfail =>
      refine pagesOwned_keep hinv hfh haddrs (fun a ha => mapPage_mapped_of_mapped ha ..)
        fun hfrees => ?_
      rw [hfree hfrees] at hfail
      cases hfail
  · rw [p.result]
    have hfound := p.found
    have hmapped : (storeEntry P p.world (P.slotAddr p.page.addr p.page.used) p.entry).mapped =
        p.world.mapped := rfl
    have haddrs : ∀ pages, FunchookT.pageAddrs ⟨fh.installed, addEntry pages p.idx p.entry,
        fh.errorMessage⟩ = pages.map FunchookPage.addr := fun pages => map_addr_addEntry ..
    generalize storeEntry P p.world (P.slotAddr p.page.addr p.page.used) p.entry = stored
      at hmapped ⊢
    generalize p.world = world at hfound hmapped
    generalize p.pages = pages at hfound ⊢
    generalize p.page = page at hfound
    generalize p.idx = idx at hfound haddrs ⊢
    cases hfound with
    | reused =>
      have hheld : stored.held = st.world.held := by rw [World.held, hmapped, World.held]
      exact pagesOwned_keep hinv hfh (haddrs _) hheld.ge fun _ => hheld
    | fresh hp => exact pagesOwned_map hinv hfh (hfresh _ hp) (haddrs _) hmapped

/-- Install and uninstall map nothing and unmap nothing. -/
theorem pagesOwned_patch (hinv : PagesOwned P frees s₀ st) (hfh : st.handles i = some fh)
    (hcontents : pageContents fh'.pageList = pageContents fh.pageList)
    (hmapped : world.mapped = st.world.mapped) :
    PagesOwned P frees s₀ (st.setHandle world i (some fh')) := by
  have hheld : world.held = st.world.held := by rw [World.held, hmapped, World.held]
  exact pagesOwned_keep hinv hfh (pageAddrs_of_contents hcontents) hheld.ge fun _ => hheld

theorem install_maps (fh : FunchookT w) (s : World w) (os : List OsAnswer) :
    pageContents (funchookInstallInternal P fh s os).fh.pageList = pageContents fh.pageList ∧
      (funchookInstallInternal P fh s os).world.mapped = s.mapped := by
  cases hinst : fh.installed with
  | true =>
    rw [install_installed fh s os hinst]
    exact ⟨rfl, rfl⟩
  | false =>
    obtain ⟨-, hm, hp, -⟩ := install_spec (P := P) fh s os hinst
    exact ⟨hp, hm⟩

theorem uninstall_maps (fh : FunchookT w) (s : World w) (os : List OsAnswer) :
    pageContents (funchookUninstallInternal P fh s os).fh.pageList = pageContents fh.pageList ∧
      (funchookUninstallInternal P fh s os).world.mapped = s.mapped := by
  cases hinst : fh.installed with
  | true =>
    obtain ⟨-, hm, hp, -⟩ := uninstall_spec (P := P) fh s os hinst
    exact ⟨hp, hm⟩
  | false =>
    rw [uninstall_not_installed fh s os hinst]
    exact ⟨rfl, rfl⟩

/-- When no free fails, nothing of the pages stays mapped. -/
theorem freePages_unmaps {pages : List (FunchookPage w)} {s : World w} {os : List OsAnswer}
    (hos : ∀ a ∈ os, a = .ok) {a : Addr w} (ha : (freePages P pages s os).mapped a = true) :
    s.mapped a = true ∧ ∀ page ∈ pages, ¬ InRange page.addr P.pageSize a := by
  induction pages generalizing s os with
  | nil => exact ⟨ha, fun page hpage => by cases hpage⟩
  | cons page pages ih =>
    obtain ⟨os', hnext, hos'⟩ := nextAnswer_ok hos
    simp only [freePages, hnext] at ha
    obtain ⟨hmapped, hrest⟩ := ih hos' ha
    rw [World.unmapPage, Bool.and_eq_true, Bool.not_eq_true', decide_eq_false_iff_not] at hmapped
    refine ⟨hmapped.2, fun q hq => ?_⟩
    rcases List.mem_cons.mp hq with rfl | hq
    · exact hmapped.1
    · exact hrest q hq

theorem pagesOwned_destroy (hinv : PagesOwned P frees s₀ st) (hfh : st.handles i = some fh)
    {os : List OsAnswer} (hfree : frees → ∀ a ∈ os, a = .ok) :
    PagesOwned P frees s₀ (if (funchookDestroyInternal P fh st.world os).1 = errorSuccess then
      st.setHandle (funchookDestroyInternal P fh st.world os).2 i none
      else st.setHandle (funchookDestroyInternal P fh st.world os).2 i (some fh)) := by
  cases hinst : fh.installed with
  | true =>
    rw [destroy_installed fh st.world os hinst,
      if_neg (show errorAlreadyInstalled ≠ errorSuccess by decide)]
    exact pagesOwned_patch hinv hfh rfl rfl
  | false =>
    rw [destroy_not_installed fh st.world os hinst, if_pos rfl]
    have hpages : ∀ a, a ∉ st.owned P i ↔ ∀ page ∈ fh.pageList, ¬ InRange page.addr P.pageSize a :=
      fun a => by
        rw [ManyState.owned, hfh, mem_pagesOf]
        simp [FunchookT.pageAddrs]
    refine ⟨?_, apart_setHandle hinv (fun f hf => by cases hf), fun hfrees => ?_⟩
    · rw [owned_setHandle, pagesOf_none]
      exact hinv.accounted.release i fun a ha => freePages_mapped os ha.1 ((hpages a).mp ha.2)
    · rw [owned_setHandle, pagesOf_none]
      refine (hinv.complete hfrees).release i fun a ha => ?_
      obtain ⟨hmapped, hout⟩ := freePages_unmaps (hfree hfrees) ha
      exact ⟨hmapped, (hpages a).mpr hout⟩

end Calls

/-- **Step.** -/
theorem pagesOwned_step {st' : ManyState w} {c : ManyCall w} (hinv : PagesOwned P frees s₀ st)
    (hfree : frees → c.FreesSucceed) (hstep : ManyStep P st c st') :
    PagesOwned P frees s₀ st' := by
  obtain ⟨hfresh, hcall⟩ := hstep
  cases c with
  | create i =>
    rw [ManyState.step] at hcall
    cases hnone : st.handles i with
    | none =>
      rw [hnone] at hcall
      cases hcall
      have howned : (st.setHandle st.world i (some funchookCreate)).owned P = st.owned P := by
        have hempty : pagesOf P (some (funchookCreate : FunchookT w)) = st.owned P i := by
          rw [ManyState.owned, hnone, pagesOf_none]
          exact Set.eq_empty_of_forall_notMem fun a ha => by
            obtain ⟨p, hp, -⟩ := mem_pagesOf.mp ha
            cases hp
        rw [owned_setHandle, hempty]
        exact Function.update_eq_self i (st.owned P)
      refine ⟨?_, apart_setHandle hinv ?_, fun hfrees => ?_⟩
      · rw [howned]
        exact hinv.accounted
      · rintro f ⟨⟩
        exact List.Pairwise.nil
      · rw [howned]
        exact hinv.complete hfrees
    | some fh =>
      rw [hnone] at hcall
      cases hcall
  | on i d =>
    obtain ⟨fh, hfh, hcall⟩ := Option.bind_eq_some_iff.mp hcall
    obtain ⟨r, hr, hcall⟩ := Option.bind_eq_some_iff.mp hcall
    cases hcall
    have hfresh := hfresh i d rfl
    cases d with
    | prepare targetFunc hookFunc answer =>
      obtain ⟨q, hq, rfl⟩ := Option.map_eq_some_iff.mp hr
      exact pagesOwned_prepare hinv hfh hfresh hfree hq
    | prepareWithParams targetFunc params answer =>
      obtain ⟨q, hq, rfl⟩ := Option.map_eq_some_iff.mp hr
      exact pagesOwned_prepare hinv hfh hfresh hfree hq
    | install os =>
      cases hr
      obtain ⟨hcontents, hmapped⟩ := install_maps (P := P) fh st.world os
      exact pagesOwned_patch hinv hfh hcontents hmapped
    | uninstall os =>
      cases hr
      obtain ⟨hcontents, hmapped⟩ := uninstall_maps (P := P) fh st.world os
      exact pagesOwned_patch hinv hfh hcontents hmapped
  | destroy i os =>
    obtain ⟨fh, hfh, hcall⟩ := Option.bind_eq_some_iff.mp hcall
    cases hcall
    exact pagesOwned_destroy hinv hfh hfree

/-- **No page is lost or taken.** In every run of several handles, whatever calls of the memory
layer fail, what was mapped at the start stays mapped, every page of a handle is mapped, and no
two of these share a byte. If no call of `funchook_page_free` fails, nothing else is mapped; so
once every handle is destroyed, the mapped bytes are those of the start. -/
theorem pages_owned
    (hrun : Run (ManyStep P) (fun _ c => frees → c.FreesSucceed) (.start s₀) st) :
    Accounted s₀.held st.world.held (st.owned P) ∧
      (∀ i fh, st.handles i = some fh → fh.pageAddrs.Pairwise (PagesApart P)) ∧
        (frees → Complete s₀.held st.world.held (st.owned P) ∧
          ((∀ i, st.handles i = none) → st.world.held = s₀.held)) := by
  have hinv : PagesOwned P frees s₀ st := hrun.invariant (pagesOwned_start P frees s₀)
    fun _ _ _ hinv hfree hstep => pagesOwned_step hinv hfree hstep
  refine ⟨hinv.accounted, hinv.apart, fun hfrees => ⟨hinv.complete hfrees, fun hnone => ?_⟩⟩
  refine held_eq_base hinv.accounted (hinv.complete hfrees) fun i => ?_
  rw [ManyState.owned, hnone i, pagesOf_none]

/-- A handle that has been prepared, installed, uninstalled and destroyed. -/
def sampleDestroyed : List (ManyCall 64) :=
  [.destroy 0 [], sampleUninstallOf 0, sampleInstallOf 0, sampleFirst, .create 0]

theorem pages_owned_sample :
    (sampleAfter sampleDestroyed).world.held = (X86.sampleWorld : World 64).held := by
  have hcreated := sampleAfter_call
    (show Run (ManyStep samplePlatform) (fun _ c => True → c.FreesSucceed) (.start X86.sampleWorld)
      (sampleAfter []) from .start)
    (.create 0) (fun _ => trivial) (fun _ _ hd => by cases hd) (by decide +kernel)
  have hfirst := sampleAfter_call hcreated sampleFirst (fun _ => rfl) (sampleFirst_fresh rfl)
    (by decide +kernel)
  have hinstalled := sampleAfter_call hfirst (sampleInstallOf 0) (fun _ => trivial)
    (fun _ _ hd => by cases hd; trivial) (by decide +kernel)
  have huninstalled := sampleAfter_call hinstalled (sampleUninstallOf 0) (fun _ => trivial)
    (fun _ _ hd => by cases hd; trivial) (by decide +kernel)
  have hdestroyed := sampleAfter_call huninstalled (.destroy 0 []) (fun _ _ h => by cases h)
    (fun _ _ hd => by cases hd) (by decide +kernel)
  refine ((pages_owned hdestroyed).2.2 trivial).2 fun i => ?_
  cases i with
  | zero => exact Option.isNone_iff_eq_none.mp (by decide +kernel)
  | succ i => rfl

end Funchook
