import Funchook.HandleRun
import Mathlib.Logic.Function.Basic

/-!
# Several handles on one process

Each handle saves the code of its targets when it is prepared, whatever another handle has written
there. So the bytes come back once no handle is installed when every prepare has found original
code, as it does where no installed handle patches that code; a handle prepared on code that
another one has patched puts that patch back for good.
-/

namespace Funchook

open ByteMemory Runs

variable {w : ℕ} (P : Platform w)

/-- The process and its handles, by any names for them. -/
structure ManyState (w : ℕ) where
  world : World w
  handles : ℕ → Option (FunchookT w)

def ManyState.start (s₀ : World w) : ManyState w := ⟨s₀, fun _ => none⟩

def ManyState.setHandle (st : ManyState w) (world : World w) (i : ℕ)
    (fh : Option (FunchookT w)) : ManyState w :=
  ⟨world, Function.update st.handles i fh⟩

/-- `funchook_create`, a call on the handle `i`, `funchook_destroy`. -/
inductive ManyCall (w : ℕ) where
  | create (i : ℕ)
  | on (i : ℕ) (c : Call w)
  | destroy (i : ℕ) (os : List OsAnswer)

def ManyState.step (st : ManyState w) : ManyCall w → Option (ManyState w)
  | .create i =>
    match st.handles i with
    | none => some (st.setHandle st.world i (some funchookCreate))
    | some _ => none
  | .on i c => do
    let fh ← st.handles i
    let r ← fh.call P st.world c
    return st.setHandle r.world i (some r.fh)
  | .destroy i os => do
    let fh ← st.handles i
    let (rv, world) := funchookDestroyInternal P fh st.world os
    return if rv = errorSuccess then st.setHandle world i none
      else st.setHandle world i (some fh)

def ManyStep (st : ManyState w) (c : ManyCall w) (st' : ManyState w) : Prop :=
  (∀ i d, c = .on i d → d.Fresh P st.world) ∧ st.step P c = some st'

/-- No call of the memory layer fails. -/
def Call.OsSucceeds : Call w → Prop
  | .prepare _ _ answer => (∃ p, answer.alloc = .ok p) ∧ answer.free = .ok
  | .prepareWithParams _ _ answer => (∃ p, answer.alloc = .ok p) ∧ answer.free = .ok
  | .install os => ∀ a ∈ os, a = .ok
  | .uninstall os => ∀ a ∈ os, a = .ok

def ManyCall.OsSucceeds : ManyCall w → Prop
  | .create _ => True
  | .on _ c => c.OsSucceeds
  | .destroy _ os => ∀ a ∈ os, a = .ok

/-- A prepare that adds an entry finds the code it is going to patch as it was at the start. -/
def PrepareFindsOriginal (s₀ : World w) (st : ManyState w) (c : ManyCall w) : Prop :=
  ∀ i d fh r, c = .on i d → st.handles i = some fh → d.isPrepare = true →
    fh.call P st.world d = some r → ∀ e ∈ r.fh.entries, e ∉ fh.entries →
      ∀ a, P.TargetByte e a → s₀.mapped a = true → st.world.bytes a = s₀.bytes a

/-- No handle is installed. -/
def ManyState.NoneInstalled (st : ManyState w) : Prop :=
  ∀ i fh, st.handles i = some fh → fh.installed = false

/-! ## The invariant -/

variable {P}

/-- The saved code of every handle is original, and so is every byte that no installed handle
patches. -/
structure ManyInv (P : Platform w) (s₀ : World w) (st : ManyState w) : Prop where
  mapped : ∀ a, s₀.mapped a = true → st.world.mapped a = true
  pages : ∀ i fh, st.handles i = some fh → ∀ page ∈ fh.pageList, ∀ a,
    InRange page.addr P.pageSize a → s₀.mapped a = false
  oldCode : ∀ i fh, st.handles i = some fh → ∀ e ∈ fh.entries, ∀ a, s₀.mapped a = true →
    P.TargetByte e a → (P.oldPatch e).byteAt a = some (s₀.bytes a)
  frame : ∀ a, s₀.mapped a = true →
    (∀ i fh, st.handles i = some fh → fh.installed = true → ∀ e ∈ fh.entries,
      ¬ P.TargetByte e a) → st.world.bytes a = s₀.bytes a

theorem manyInv_start (P : Platform w) (s₀ : World w) : ManyInv P s₀ (.start s₀) where
  mapped := fun _ ha => ha
  pages := fun _ _ h => by cases h
  oldCode := fun _ _ h => by cases h
  frame := fun _ _ _ => rfl

theorem setHandle_cases {st : ManyState w} {world : World w} {i j : ℕ}
    {fh : Option (FunchookT w)} {fh' : FunchookT w}
    (h : (st.setHandle world i fh).handles j = some fh') :
    j = i ∧ fh = some fh' ∨ j ≠ i ∧ st.handles j = some fh' := by
  unfold ManyState.setHandle at h
  dsimp only at h
  by_cases hj : j = i
  · subst hj
    rw [Function.update_self] at h
    exact Or.inl ⟨rfl, h⟩
  · rw [Function.update_of_ne hj] at h
    exact Or.inr ⟨hj, h⟩

theorem setHandle_self (st : ManyState w) (world : World w) (i : ℕ) (fh : Option (FunchookT w)) :
    (st.setHandle world i fh).handles i = fh :=
  Function.update_self ..

theorem setHandle_of_ne {st : ManyState w} (world : World w) {i j : ℕ}
    (fh : Option (FunchookT w)) (hj : j ≠ i) :
    (st.setHandle world i fh).handles j = st.handles j :=
  Function.update_of_ne hj ..

/-- The invariant survives a call that gives the handle `i` a new state, when saved code stays
original and every byte the call changes is made original or is patched by the new state. -/
theorem manyInv_setHandle {s₀ : World w} {st : ManyState w} (hinv : ManyInv P s₀ st) {i : ℕ}
    {fh : FunchookT w} (hfh : st.handles i = some fh) {world : World w}
    {next : Option (FunchookT w)} (hmapped : ∀ a, s₀.mapped a = true → world.mapped a = true)
    (hpages : ∀ f, next = some f → ∀ page ∈ f.pageList, ∀ a, InRange page.addr P.pageSize a →
      s₀.mapped a = false)
    (hold : ∀ f, next = some f → ∀ e ∈ f.entries, ∀ a, s₀.mapped a = true → P.TargetByte e a →
      (P.oldPatch e).byteAt a = some (s₀.bytes a))
    (hframe : ∀ a, s₀.mapped a = true →
      (∀ f, next = some f → f.installed = true → ∀ e ∈ f.entries, ¬ P.TargetByte e a) →
        world.bytes a = s₀.bytes a ∨ world.bytes a = st.world.bytes a ∧
          (fh.installed = true → ∀ e ∈ fh.entries, ¬ P.TargetByte e a)) :
    ManyInv P s₀ (st.setHandle world i next) := by
  refine ⟨hmapped, fun j f hf => ?_, fun j f hf => ?_, fun a ha hne => ?_⟩
  · rcases setHandle_cases hf with ⟨-, hnext⟩ | ⟨-, hf⟩
    · exact hpages f hnext
    · exact hinv.pages j f hf
  · rcases setHandle_cases hf with ⟨-, hnext⟩ | ⟨-, hf⟩
    · exact hold f hnext
    · exact hinv.oldCode j f hf
  · have hnext : ∀ f, next = some f → f.installed = true → ∀ e ∈ f.entries,
        ¬ P.TargetByte e a := fun f hf => hne i f (by rw [setHandle_self, hf])
    rcases hframe a ha hnext with horiginal | ⟨hsame, hfh'⟩
    · exact horiginal
    · refine hsame.trans (hinv.frame a ha fun j f hf hinst => ?_)
      by_cases hj : j = i
      · subst hj
        cases hfh.symm.trans hf
        exact hfh' hinst
      · exact hne j f ((setHandle_of_ne world next hj).trans hf) hinst

theorem manyInv_create {s₀ : World w} {st : ManyState w} (hinv : ManyInv P s₀ st) {i : ℕ}
    (hnone : st.handles i = none) :
    ManyInv P s₀ (st.setHandle st.world i (some funchookCreate)) := by
  have hcases : ∀ j f, (st.setHandle st.world i (some funchookCreate)).handles j = some f →
      f = funchookCreate ∨ st.handles j = some f := fun j f hf => by
    rcases setHandle_cases hf with ⟨-, hnext⟩ | ⟨-, hf⟩
    · exact Or.inl (Option.some.inj hnext).symm
    · exact Or.inr hf
  refine ⟨hinv.mapped, fun j f hf => ?_, fun j f hf => ?_, fun a ha hne => ?_⟩
  · rcases hcases j f hf with rfl | hf
    · exact fun page hpage => by cases hpage
    · exact hinv.pages j f hf
  · rcases hcases j f hf with rfl | hf
    · exact fun e he => by cases he
    · exact hinv.oldCode j f hf
  · refine hinv.frame a ha fun j f hf => hne j f ?_
    rw [setHandle_of_ne _ _ fun hj => by rw [hj, hnone] at hf; cases hf]
    exact hf

theorem manyInv_prepare {s₀ : World w} {st : ManyState w} (hinv : ManyInv P s₀ st) {i : ℕ}
    {fh : FunchookT w} (hfh : st.handles i = some fh) {targetFunc : Addr w}
    {params : FunchookParams w} {answer : AllocAnswer w} {r : PrepareResult w}
    (hfresh : answer.Fresh P st.world)
    (h : funchookPrepareInternal P fh st.world targetFunc params answer = some r)
    (hfinds : ∀ e ∈ r.fh.entries, e ∉ fh.entries → ∀ a, P.TargetByte e a → s₀.mapped a = true →
      st.world.bytes a = s₀.bytes a) :
    ManyInv P s₀ (st.setHandle r.world i (some r.fh)) := by
  have hframe : ∀ a, s₀.mapped a = true →
      r.world.bytes a = st.world.bytes a ∧ r.world.mapped a = true := fun a ha =>
    prepare_frame hfresh h (hinv.mapped a ha) fun page hpage hin => by
      have hout := hinv.pages i fh hfh page hpage a hin
      rw [ha] at hout
      cases hout
  refine manyInv_setHandle hinv hfh (fun a ha => (hframe a ha).2) ?_ ?_ fun a ha hne => ?_
  · rintro f ⟨⟩ page hpage a ha
    rcases prepare_pageList h hpage with ⟨page', hpage', haddr⟩ | halloc
    · exact hinv.pages i fh hfh page' hpage' a (haddr ▸ ha)
    · cases hm : s₀.mapped a with
      | false => rfl
      | true => exact absurd (hinv.mapped a hm) (by rw [hfresh _ halloc a ha]; decide)
  · rintro f ⟨⟩ e he a ha hta
    by_cases hmem : e ∈ fh.entries
    · exact hinv.oldCode i fh hfh e hmem a ha hta
    · rcases prepare_entries hfresh h he with hmem' | ⟨-, hsaved⟩
      · exact absurd hmem' hmem
      · rw [hsaved a (hinv.mapped a ha) hta, hfinds e he hmem a hta ha]
  · refine Or.inr ⟨(hframe a ha).1, fun hinst e he => ?_⟩
    exact hne r.fh rfl ((prepare_installed h).trans hinst) e (prepare_keeps_entries h he)

theorem manyInv_install {s₀ : World w} {st : ManyState w} (hinv : ManyInv P s₀ st) {i : ℕ}
    {fh : FunchookT w} (hfh : st.handles i = some fh) {os : List OsAnswer}
    (hos : ∀ a ∈ os, a = .ok) :
    ManyInv P s₀ (st.setHandle (funchookInstallInternal P fh st.world os).world i
      (some (funchookInstallInternal P fh st.world os).fh)) := by
  cases hinst : fh.installed with
  | true =>
    rw [install_installed fh st.world os hinst]
    refine manyInv_setHandle hinv hfh hinv.mapped ?_ ?_ fun a _ hne => Or.inr ⟨rfl, hne fh rfl⟩
    · rintro f ⟨⟩
      exact hinv.pages i fh hfh
    · rintro f ⟨⟩
      exact hinv.oldCode i fh hfh
  | false =>
    obtain ⟨hb, hm, hp, ⟨hfailed, -, -⟩ | ⟨-, -, hinst'⟩⟩ :=
      install_spec (P := P) fh st.world os hinst
    · rw [installReach_ok fh.pageList hos] at hfailed
      cases hfailed
    · have hentries : (funchookInstallInternal P fh st.world os).fh.entries = fh.entries :=
        flatMap_entries_eq hp
      refine manyInv_setHandle hinv hfh (fun a ha => hm ▸ hinv.mapped a ha) ?_ ?_
        fun a ha hne => Or.inr ⟨?_, fun h => absurd (hinst.symm.trans h) (by decide)⟩
      · rintro f ⟨⟩ page hpage a ha
        obtain ⟨page', hpage', haddr⟩ := mem_pageList_of_contents hp hpage
        exact hinv.pages i fh hfh page' hpage' a (haddr ▸ ha)
      · rintro f ⟨⟩
        rw [hentries]
        exact hinv.oldCode i fh hfh
      · rw [hb]
        refine writeAll_newPatch_frame fun e he => hne _ rfl hinst' e ?_
        rw [hentries]
        exact (installReach_prefix_entries _ _).subset he

theorem manyInv_uninstall {s₀ : World w} {st : ManyState w} (hinv : ManyInv P s₀ st) {i : ℕ}
    {fh : FunchookT w} (hfh : st.handles i = some fh) {os : List OsAnswer}
    (hos : ∀ a ∈ os, a = .ok) :
    ManyInv P s₀ (st.setHandle (funchookUninstallInternal P fh st.world os).world i
      (some (funchookUninstallInternal P fh st.world os).fh)) := by
  cases hinst : fh.installed with
  | false =>
    rw [uninstall_not_installed fh st.world os hinst]
    refine manyInv_setHandle hinv hfh hinv.mapped ?_ ?_ fun a _ hne => Or.inr ⟨rfl, hne fh rfl⟩
    · rintro f ⟨⟩
      exact hinv.pages i fh hfh
    · rintro f ⟨⟩
      exact hinv.oldCode i fh hfh
  | true =>
    obtain ⟨hb, hm, hp, ⟨hfailed, -, -⟩ | ⟨hall, -, -⟩⟩ :=
      uninstall_spec (P := P) fh st.world os hinst
    · rw [uninstallReach_ok fh.pageList hos] at hfailed
      cases hfailed
    · have hentries : (funchookUninstallInternal P fh st.world os).fh.entries = fh.entries :=
        flatMap_entries_eq hp
      refine manyInv_setHandle hinv hfh (fun a ha => hm ▸ hinv.mapped a ha) ?_ ?_
        fun a ha _ => ?_
      · rintro f ⟨⟩ page hpage a ha
        obtain ⟨page', hpage', haddr⟩ := mem_pageList_of_contents hp hpage
        exact hinv.pages i fh hfh page' hpage' a (haddr ▸ ha)
      · rintro f ⟨⟩
        rw [hentries]
        exact hinv.oldCode i fh hfh
      · rw [hb, uninstallReach_all hall]
        change writeAll (fh.entries.map P.oldPatch) st.world.bytes a = s₀.bytes a ∨
          writeAll (fh.entries.map P.oldPatch) st.world.bytes a = st.world.bytes a ∧ _
        by_cases hcov : ∃ e ∈ fh.entries, P.TargetByte e a
        · obtain ⟨e, he, hta⟩ := hcov
          exact Or.inl (writeAll_oldPatch_original
            (fun e' he' hta' => hinv.oldCode i fh hfh e' he' a ha hta') he hta)
        · have hout : ∀ e ∈ fh.entries, ¬ P.TargetByte e a := fun e he hta => hcov ⟨e, he, hta⟩
          exact Or.inr ⟨writeAll_oldPatch_frame hout, fun _ => hout⟩

theorem manyInv_destroy {s₀ : World w} {st : ManyState w} (hinv : ManyInv P s₀ st) {i : ℕ}
    {fh : FunchookT w} (hfh : st.handles i = some fh) (os : List OsAnswer) :
    ManyInv P s₀ (if (funchookDestroyInternal P fh st.world os).1 = errorSuccess then
      st.setHandle (funchookDestroyInternal P fh st.world os).2 i none
      else st.setHandle (funchookDestroyInternal P fh st.world os).2 i (some fh)) := by
  cases hinst : fh.installed with
  | true =>
    rw [destroy_installed fh st.world os hinst,
      if_neg (show errorAlreadyInstalled ≠ errorSuccess by decide)]
    refine manyInv_setHandle hinv hfh hinv.mapped ?_ ?_ fun a _ hne => Or.inr ⟨rfl, hne fh rfl⟩
    · rintro f ⟨⟩
      exact hinv.pages i fh hfh
    · rintro f ⟨⟩
      exact hinv.oldCode i fh hfh
  | false =>
    rw [destroy_not_installed fh st.world os hinst, if_pos rfl]
    refine manyInv_setHandle hinv hfh (fun a ha => ?_) (fun f hf => by cases hf)
      (fun f hf => by cases hf) fun a _ _ => Or.inr ⟨?_, fun h => absurd (hinst.symm.trans h)
        (by decide)⟩
    · refine freePages_mapped os (hinv.mapped a ha) fun page hpage hin => ?_
      have hout := hinv.pages i fh hfh page hpage a hin
      rw [ha] at hout
      cases hout
    · exact congrFun (freePages_bytes _ _ _) a

/-- **Step.** Every call whose prepare finds original code keeps the invariant. -/
theorem manyInv_step {s₀ : World w} {st st' : ManyState w} {c : ManyCall w}
    (hinv : ManyInv P s₀ st) (hos : c.OsSucceeds) (hfinds : PrepareFindsOriginal P s₀ st c)
    (hstep : ManyStep P st c st') : ManyInv P s₀ st' := by
  obtain ⟨hfresh, hcall⟩ := hstep
  cases c with
  | create i =>
    rw [ManyState.step] at hcall
    cases hnone : st.handles i with
    | none =>
      rw [hnone] at hcall
      cases hcall
      exact manyInv_create hinv hnone
    | some fh =>
      rw [hnone] at hcall
      cases hcall
  | on i d =>
    obtain ⟨fh, hfh, hcall⟩ := Option.bind_eq_some_iff.mp hcall
    obtain ⟨r, hr, hcall⟩ := Option.bind_eq_some_iff.mp hcall
    cases hcall
    have hfresh := hfresh i d rfl
    have hfinds := hfinds i d fh r rfl hfh
    cases d with
    | prepare targetFunc hookFunc answer =>
      obtain ⟨q, hq, rfl⟩ := Option.map_eq_some_iff.mp hr
      exact manyInv_prepare hinv hfh hfresh hq (hfinds rfl hr)
    | prepareWithParams targetFunc params answer =>
      obtain ⟨q, hq, rfl⟩ := Option.map_eq_some_iff.mp hr
      exact manyInv_prepare hinv hfh hfresh hq (hfinds rfl hr)
    | install os =>
      cases hr
      exact manyInv_install hinv hfh hos
    | uninstall os =>
      cases hr
      exact manyInv_uninstall hinv hfh hos
  | destroy i os =>
    obtain ⟨fh, hfh, hcall⟩ := Option.bind_eq_some_iff.mp hcall
    cases hcall
    exact manyInv_destroy hinv hfh os

/-- **No stale code.** In every run of several handles in which no call of the memory layer fails
and each prepare finds the code it is going to patch as it was at the start, every byte mapped at
the start is original whenever no handle is installed. -/
theorem none_installed_original {s₀ : World w} {st : ManyState w}
    (hrun : Run (ManyStep P) (fun st c => c.OsSucceeds ∧ PrepareFindsOriginal P s₀ st c)
      (.start s₀) st) (hnone : st.NoneInstalled) (a : Addr w) (ha : s₀.mapped a = true) :
    st.world.bytes a = s₀.bytes a := by
  have hinv : ManyInv P s₀ st := hrun.invariant (manyInv_start P s₀)
    fun _ _ _ hinv hcond hstep => manyInv_step hinv hcond.1 hcond.2 hstep
  refine hinv.frame a ha fun i fh hfh hinst => ?_
  rw [hnone i fh hfh] at hinst
  cases hinst

/-! ## Two handles on one function -/

/-- The sample process after some calls, the last one first. -/
def sampleAfter : List (ManyCall 64) → ManyState 64
  | [] => .start X86.sampleWorld
  | c :: cs => ((sampleAfter cs).step samplePlatform c).getD (sampleAfter cs)

def sampleFirst : ManyCall 64 := .on 0 (.prepare 0x401000 0x402000 ⟨.ok 0x500000, .ok⟩)

def sampleSecond : ManyCall 64 := .on 1 (.prepare 0x401000 0x402100 ⟨.ok 0x600000, .ok⟩)

theorem sampleAfter_call {cond : ManyState 64 → ManyCall 64 → Prop} {cs : List (ManyCall 64)}
    (hrun : Run (ManyStep samplePlatform) cond (.start X86.sampleWorld) (sampleAfter cs))
    (c : ManyCall 64) (hcond : cond (sampleAfter cs) c)
    (hfresh : ∀ i d, c = .on i d → d.Fresh samplePlatform (sampleAfter cs).world)
    (hstep : ((sampleAfter cs).step samplePlatform c).isSome = true) :
    Run (ManyStep samplePlatform) cond (.start X86.sampleWorld) (sampleAfter (c :: cs)) := by
  refine hrun.call c hcond ⟨hfresh, ?_⟩
  obtain ⟨st, hst⟩ := Option.isSome_iff_exists.mp hstep
  rw [sampleAfter, hst, Option.getD_some]

def sampleInstallOf (i : ℕ) : ManyCall 64 := .on i (.install [])

def sampleUninstallOf (i : ℕ) : ManyCall 64 := .on i (.uninstall [])

theorem sampleFirst_fresh {cs : List (ManyCall 64)}
    (h : (sampleAfter cs).world.mapped = (X86.sampleWorld : World 64).mapped) (i : ℕ) (d : Call 64)
    (hd : sampleFirst = .on i d) : d.Fresh samplePlatform (sampleAfter cs).world := by
  cases hd
  rintro p ⟨⟩ a ha
  rw [h]
  exact sample_fresh 0x500000 rfl a ha

theorem sampleSecond_fresh {cs : List (ManyCall 64)}
    (h : (sampleAfter cs).world.mapped =
      ((X86.sampleWorld : World 64).mapPage 0x500000 4096).mapped) (i : ℕ)
    (d : Call 64) (hd : sampleSecond = .on i d) :
    d.Fresh samplePlatform (sampleAfter cs).world := by
  cases hd
  rintro p ⟨⟩ a ha
  have hlt : (a - 0x600000).toNat < 4096 := ha
  rw [h]
  refine Bool.or_eq_false_iff.mpr ⟨decide_eq_false fun h => ?_, decide_eq_false fun h => ?_⟩
  · have hlt' : (a - 0x500000).toNat < 4096 := h
    bv_omega
  · have hlt' : (a - 0x400000).toNat < 0x4000 := h
    bv_omega

theorem noneInstalled_of_two {st : ManyState w}
    (h₀ : (st.handles 0).all (fun fh => !fh.installed) = true)
    (h₁ : (st.handles 1).all (fun fh => !fh.installed) = true)
    (hrest : ∀ i, st.handles (i + 2) = none) : st.NoneInstalled := by
  rintro (_ | _ | i) fh hfh
  · rw [hfh] at h₀
    simpa using h₀
  · rw [hfh] at h₁
    simpa using h₁
  · rw [hrest i] at hfh
    cases hfh

theorem findsOriginal_of_not_prepare {s₀ : World w} {st : ManyState w} {c : ManyCall w}
    (h : ∀ i d, c = .on i d → d.isPrepare = false) : PrepareFindsOriginal P s₀ st c := by
  intro i d fh r hc _ hd
  rw [h i d hc] at hd
  cases hd

/-- The first handle has been installed and uninstalled. -/
def sampleFirstRestored : List (ManyCall 64) :=
  [.create 1, sampleUninstallOf 0, sampleInstallOf 0, sampleFirst, .create 0]

theorem sampleFirstRestored_run :
    Run (ManyStep samplePlatform)
      (fun st c => c.OsSucceeds ∧ PrepareFindsOriginal samplePlatform X86.sampleWorld st c)
      (.start X86.sampleWorld) (sampleAfter sampleFirstRestored) := by
  have hcreated := sampleAfter_call
    (show Run (ManyStep samplePlatform)
      (fun st c => c.OsSucceeds ∧ PrepareFindsOriginal samplePlatform X86.sampleWorld st c)
      (.start X86.sampleWorld) (sampleAfter []) from .start)
    (.create 0) ⟨trivial, findsOriginal_of_not_prepare fun _ _ hd => by cases hd⟩
    (fun _ _ hd => by cases hd) (by decide +kernel)
  have hfirst := sampleAfter_call hcreated sampleFirst
    ⟨⟨⟨_, rfl⟩, rfl⟩, fun _ _ _ _ _ _ _ _ _ _ _ _ _ _ => rfl⟩ (sampleFirst_fresh rfl)
    (by decide +kernel)
  have hinstalled := sampleAfter_call hfirst (sampleInstallOf 0)
    ⟨(fun _ h => by cases h), findsOriginal_of_not_prepare fun _ _ hd => by cases hd; rfl⟩
    (fun _ _ hd => by cases hd; trivial) (by decide +kernel)
  have huninstalled := sampleAfter_call hinstalled (sampleUninstallOf 0)
    ⟨(fun _ h => by cases h), findsOriginal_of_not_prepare fun _ _ hd => by cases hd; rfl⟩
    (fun _ _ hd => by cases hd; trivial) (by decide +kernel)
  exact sampleAfter_call huninstalled (.create 1)
    ⟨trivial, findsOriginal_of_not_prepare fun _ _ hd => by cases hd⟩ (fun _ _ hd => by cases hd)
    (by decide +kernel)

/-- The second handle, prepared after the first has been uninstalled, restores the function. -/
theorem none_installed_original_sample :
    (sampleAfter (sampleUninstallOf 1 :: sampleInstallOf 1 :: sampleSecond ::
      sampleFirstRestored)).world.bytes 0x401000 = (X86.sampleWorld : World 64).bytes 0x401000 := by
  have horiginal := none_installed_original sampleFirstRestored_run
    (noneInstalled_of_two (by decide +kernel) (by decide +kernel) fun _ => rfl)
  have hsecond := sampleAfter_call sampleFirstRestored_run sampleSecond
    ⟨⟨⟨_, rfl⟩, rfl⟩, fun _ _ _ _ _ _ _ _ _ _ _ a _ ha => horiginal a ha⟩
    (sampleSecond_fresh rfl) (by decide +kernel)
  have hinstalled := sampleAfter_call hsecond (sampleInstallOf 1)
    ⟨(fun _ h => by cases h), findsOriginal_of_not_prepare fun _ _ hd => by cases hd; rfl⟩
    (fun _ _ hd => by cases hd; trivial) (by decide +kernel)
  have huninstalled := sampleAfter_call hinstalled (sampleUninstallOf 1)
    ⟨(fun _ h => by cases h), findsOriginal_of_not_prepare fun _ _ hd => by cases hd; rfl⟩
    (fun _ _ hd => by cases hd; trivial) (by decide +kernel)
  exact none_installed_original huninstalled
    (noneInstalled_of_two (by decide +kernel) (by decide +kernel) fun _ => rfl) _
    (by decide +kernel)

/-- The second handle, prepared while the first is installed, leaves the jump of the first in the
function when both have been uninstalled. -/
theorem none_installed_not_original :
    ¬ ∀ st, Run (ManyStep samplePlatform) (fun _ c => c.OsSucceeds) (.start X86.sampleWorld) st →
      st.NoneInstalled → ∀ a, (X86.sampleWorld : World 64).mapped a = true →
        st.world.bytes a = (X86.sampleWorld : World 64).bytes a := by
  intro h
  have hcreated := sampleAfter_call
    (show Run (ManyStep samplePlatform) (fun _ c => c.OsSucceeds) (.start X86.sampleWorld)
      (sampleAfter []) from .start)
    (.create 0) trivial (fun _ _ hd => by cases hd) (by decide +kernel)
  have hfirst := sampleAfter_call hcreated sampleFirst ⟨⟨_, rfl⟩, rfl⟩ (sampleFirst_fresh rfl)
    (by decide +kernel)
  have hinstalled := sampleAfter_call hfirst (sampleInstallOf 0) (fun _ h => by cases h)
    (fun _ _ hd => by cases hd; trivial) (by decide +kernel)
  have hcreated₁ := sampleAfter_call hinstalled (.create 1) trivial (fun _ _ hd => by cases hd)
    (by decide +kernel)
  have hsecond := sampleAfter_call hcreated₁ sampleSecond ⟨⟨_, rfl⟩, rfl⟩ (sampleSecond_fresh rfl)
    (by decide +kernel)
  have huninstalled := sampleAfter_call hsecond (sampleUninstallOf 0) (fun _ h => by cases h)
    (fun _ _ hd => by cases hd; trivial) (by decide +kernel)
  have hinstalled₁ := sampleAfter_call huninstalled (sampleInstallOf 1) (fun _ h => by cases h)
    (fun _ _ hd => by cases hd; trivial) (by decide +kernel)
  have hend := sampleAfter_call hinstalled₁ (sampleUninstallOf 1) (fun _ h => by cases h)
    (fun _ _ hd => by cases hd; trivial) (by decide +kernel)
  have hbyte := h _ hend (noneInstalled_of_two (by decide +kernel) (by decide +kernel)
    fun _ => rfl) 0x401000 (by decide +kernel)
  revert hbyte
  decide +kernel

end Funchook
