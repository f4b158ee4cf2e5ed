import Funchook.ManyHandles
import Funchook.Lib.Overlay

/-!
# Hooks on hooked functions

A handle that is prepared while another one is installed saves the jump of the other as the code of
its targets. Install and uninstall are then the making and undoing of changes: when an install
finds the code that its prepares have saved, and an uninstall no newer installed handle that
patches the same bytes, the code at any moment is the original with the patches of the installed
handles on top of each other, in the order in which they were installed.
-/

namespace Funchook

open ByteMemory Runs Overlay

variable {w : ℕ} (P : Platform w)

/-- The bytes that were mapped at the start. -/
def codeOf (s₀ s : World w) (a : {a : Addr w // s₀.mapped a = true}) : Byte := s.bytes a

/-- What the loops of install and uninstall write to these bytes. -/
def FunchookT.change (s₀ : World w) (fh : FunchookT w) :
    Change {a : Addr w // s₀.mapped a = true} Byte where
  put a := lastWrite (fh.entries.map P.newPatch) a
  saved a := lastWrite (fh.entries.map P.oldPatch) a

/-- The process, its handles and the names of those installed, the newest first. The order is no
state of the program. -/
structure ChainState (w : ℕ) extends ManyState w where
  order : List ℕ

def ChainState.start (s₀ : World w) : ChainState w := ⟨.start s₀, []⟩

def ManyState.isInstalled (st : ManyState w) (i : ℕ) : Bool :=
  (st.handles i).any FunchookT.installed

def ManyState.change (s₀ : World w) (st : ManyState w) (i : ℕ) :
    Change {a : Addr w // s₀.mapped a = true} Byte :=
  ((st.handles i).map (FunchookT.change P s₀)).getD .nothing

def ManyCall.name : ManyCall w → ℕ
  | .create i => i
  | .on i _ => i
  | .destroy i _ => i

/-- A handle that has become installed is the newest; one that is no longer installed is gone. -/
def nextOrder (st' : ManyState w) (order : List ℕ) (i : ℕ) : List ℕ :=
  if st'.isInstalled i then (if i ∈ order then order else i :: order) else order.erase i

def ChainStep (cs : ChainState w) (c : ManyCall w) (cs' : ChainState w) : Prop :=
  ManyStep P cs.toManyState c cs'.toManyState ∧
    cs'.order = nextOrder cs'.toManyState cs.order c.name

/-- An install finds the code that the prepares of its handle have saved. -/
def InstallFindsSaved (s₀ : World w) (cs : ChainState w) (c : ManyCall w) : Prop :=
  ∀ i os fh, c = .on i (.install os) → cs.handles i = some fh → fh.installed = false →
    ∀ e ∈ fh.entries, ∀ a, P.TargetByte e a → s₀.mapped a = true →
      (P.oldPatch e).byteAt a = some (cs.world.bytes a)

/-- No handle installed after the one that is uninstalled patches one of its bytes. -/
def UninstallsOnTop (s₀ : World w) (cs : ChainState w) (c : ManyCall w) : Prop :=
  ∀ i os fh, c = .on i (.uninstall os) → cs.handles i = some fh →
    ∀ j ∈ newerThan cs.order i, ∀ fh', cs.handles j = some fh' →
      ∀ e ∈ fh.entries, ∀ e' ∈ fh'.entries, ∀ a, s₀.mapped a = true → P.TargetByte e a →
        ¬ P.TargetByte e' a

structure Nested (s₀ : World w) (cs : ChainState w) (c : ManyCall w) : Prop where
  osSucceeds : c.OsSucceeds
  findsSaved : InstallFindsSaved P s₀ cs c
  onTop : UninstallsOnTop P s₀ cs c

/-! ## The change of a handle -/

variable {P} {s₀ : World w}

/-- An entry has saved every byte of its target. -/
def SavesTargets (P : Platform w) (s₀ : World w) (fh : FunchookT w) : Prop :=
  ∀ e ∈ fh.entries, ∀ a, s₀.mapped a = true → P.TargetByte e a →
    ((P.oldPatch e).byteAt a).isSome = true

theorem change_covers {fh : FunchookT w} {a : {a : Addr w // s₀.mapped a = true}}
    (h : (fh.change P s₀).Covers a) : ∃ e ∈ fh.entries, P.TargetByte e a := by
  obtain ⟨b, hb⟩ := Option.isSome_iff_exists.mp h
  obtain ⟨p, hp, hbyte⟩ := lastWrite_mem hb
  obtain ⟨e, he, rfl⟩ := List.mem_map.mp hp
  exact ⟨e, he, oldPatch_covers (Patch.byteAt_isSome.mp (by rw [hbyte]; rfl))⟩

theorem change_complete {fh : FunchookT w} (h : SavesTargets P s₀ fh) :
    (fh.change P s₀).Complete := by
  intro a hput
  obtain ⟨b, hb⟩ := Option.isSome_iff_exists.mp hput
  obtain ⟨p, hp, hbyte⟩ := lastWrite_mem hb
  obtain ⟨e, he, rfl⟩ := List.mem_map.mp hp
  have htarget := newPatch_covers (Patch.byteAt_isSome.mp (by rw [hbyte]; rfl))
  have hcovers := Patch.byteAt_isSome.mp (h e he a a.2 htarget)
  refine Option.isSome_iff_ne_none.mpr fun hnone => ?_
  exact lastWrite_eq_none.mp hnone _ (List.mem_map_of_mem he) hcovers

theorem change_found {fh : FunchookT w} {s : World w}
    (h : ∀ e ∈ fh.entries, ∀ a, P.TargetByte e a → s₀.mapped a = true →
      (P.oldPatch e).byteAt a = some (s.bytes a)) : (fh.change P s₀).Found (codeOf s₀ s) := by
  intro a b hsaved
  obtain ⟨p, hp, hbyte⟩ := lastWrite_mem hsaved
  obtain ⟨e, he, rfl⟩ := List.mem_map.mp hp
  have htarget := oldPatch_covers (Patch.byteAt_isSome.mp (by rw [hbyte]; rfl))
  exact Option.some.inj ((h e he a htarget a.2).symm.trans hbyte)

theorem codeOf_install {fh : FunchookT w} {s s' : World w}
    (h : s'.bytes = writeAll (fh.entries.map P.newPatch) s.bytes) :
    codeOf s₀ s' = (fh.change P s₀).make (codeOf s₀ s) := by
  funext a
  rw [codeOf, h, writeAll_apply]
  rfl

theorem codeOf_uninstall {fh : FunchookT w} {s s' : World w}
    (h : s'.bytes = writeAll (fh.entries.map P.oldPatch) s.bytes) :
    codeOf s₀ s' = (fh.change P s₀).undo (codeOf s₀ s) := by
  funext a
  rw [codeOf, h, writeAll_apply]
  rfl

theorem change_congr {fh fh' : FunchookT w} (h : fh'.entries = fh.entries) :
    fh'.change P s₀ = fh.change P s₀ := by
  rw [FunchookT.change, FunchookT.change, h]

theorem change_of_handle {st : ManyState w} {i : ℕ} {fh : FunchookT w}
    (h : st.handles i = some fh) : st.change P s₀ i = fh.change P s₀ := by
  rw [ManyState.change, h]
  rfl

theorem isInstalled_of_handle {st : ManyState w} {i : ℕ} {fh : FunchookT w}
    (h : st.handles i = some fh) : st.isInstalled i = fh.installed := by
  rw [ManyState.isInstalled, h]
  rfl

/-! ## The invariant -/

/-- The code is the original with the changes of the installed handles on top of each other. -/
structure ChainInv (P : Platform w) (s₀ : World w) (cs : ChainState w) : Prop where
  mapped : ∀ a, s₀.mapped a = true → cs.world.mapped a = true
  pages : ∀ i fh, cs.handles i = some fh → ∀ page ∈ fh.pageList, ∀ a,
    InRange page.addr P.pageSize a → s₀.mapped a = false
  saves : ∀ i fh, cs.handles i = some fh → SavesTargets P s₀ fh
  nodup : cs.order.Nodup
  listed : ∀ i, i ∈ cs.order ↔ cs.isInstalled i = true
  code : codeOf s₀ cs.world = layers (cs.order.map (cs.change P s₀)) (codeOf s₀ s₀)
  saved : Saved (cs.order.map (cs.change P s₀)) (codeOf s₀ s₀)

theorem chainInv_start (P : Platform w) (s₀ : World w) : ChainInv P s₀ (.start s₀) where
  mapped := fun _ ha => ha
  pages := fun _ _ h => by cases h
  saves := fun _ _ h => by cases h
  nodup := List.nodup_nil
  listed := fun i => ⟨(fun h => by cases h), fun h => by cases h⟩
  code := rfl
  saved := trivial

section Update

variable {cs : ChainState w} {i : ℕ} {world : World w} {next : Option (FunchookT w)}

theorem isInstalled_setHandle_self :
    (cs.setHandle world i next).isInstalled i = next.any FunchookT.installed := by
  rw [ManyState.isInstalled, setHandle_self]

theorem isInstalled_setHandle_of_ne {j : ℕ} (hj : j ≠ i) :
    (cs.setHandle world i next).isInstalled j = cs.isInstalled j := by
  rw [ManyState.isInstalled, setHandle_of_ne _ _ hj, ManyState.isInstalled]

theorem change_setHandle_of_ne {j : ℕ} (hj : j ≠ i) :
    (cs.setHandle world i next).change P s₀ j = cs.change P s₀ j := by
  rw [ManyState.change, setHandle_of_ne _ _ hj, ManyState.change]

/-- The changes of the other names stay. -/
theorem map_change_setHandle {order : List ℕ} (h : i ∉ order) :
    order.map ((cs.setHandle world i next).change P s₀) = order.map (cs.change P s₀) :=
  List.map_congr_left fun _ hj => change_setHandle_of_ne fun hji => h (hji ▸ hj)

/-- The order after a call lists the installed handles. -/
theorem nextOrder_listed (hinv : ChainInv P s₀ cs) (j : ℕ) :
    j ∈ nextOrder (cs.setHandle world i next) cs.order i ↔
      (cs.setHandle world i next).isInstalled j = true := by
  have hlisted := hinv.listed j
  unfold nextOrder
  by_cases hj : j = i
  · subst hj
    split
    · rename_i hinst
      refine iff_of_true ?_ hinst
      split
      · assumption
      · exact List.mem_cons_self
    · rename_i hinst
      exact iff_of_false hinv.nodup.not_mem_erase hinst
  · rw [isInstalled_setHandle_of_ne hj, ← hlisted]
    split
    · split
      · exact Iff.rfl
      · exact List.mem_cons.trans (or_iff_right hj)
    · exact List.mem_erase_of_ne hj

theorem nextOrder_nodup (hinv : ChainInv P s₀ cs) :
    (nextOrder (cs.setHandle world i next) cs.order i).Nodup := by
  unfold nextOrder
  split
  · split
    · exact hinv.nodup
    · exact List.nodup_cons.mpr ⟨by assumption, hinv.nodup⟩
  · exact hinv.nodup.erase i

/-- What a call has to do for the invariant: the code and the list of changes go on together. -/
theorem chainInv_setHandle (hinv : ChainInv P s₀ cs)
    (hmapped : ∀ a, s₀.mapped a = true → world.mapped a = true)
    (hpages : ∀ f, next = some f → ∀ page ∈ f.pageList, ∀ a, InRange page.addr P.pageSize a →
      s₀.mapped a = false)
    (hsaves : ∀ f, next = some f → SavesTargets P s₀ f)
    (hcode : codeOf s₀ world =
      layers ((nextOrder (cs.setHandle world i next) cs.order i).map
        ((cs.setHandle world i next).change P s₀)) (codeOf s₀ s₀))
    (hsaved : Saved ((nextOrder (cs.setHandle world i next) cs.order i).map
      ((cs.setHandle world i next).change P s₀)) (codeOf s₀ s₀)) :
    ChainInv P s₀ ⟨cs.setHandle world i next,
      nextOrder (cs.setHandle world i next) cs.order i⟩ := by
  refine ⟨hmapped, fun j f hf => ?_, fun j f hf => ?_, nextOrder_nodup hinv,
    nextOrder_listed hinv, hcode, hsaved⟩
  · rcases setHandle_cases hf with ⟨-, hnext⟩ | ⟨-, hf⟩
    · exact hpages f hnext
    · exact hinv.pages j f hf
  · rcases setHandle_cases hf with ⟨-, hnext⟩ | ⟨-, hf⟩
    · exact hsaves f hnext
    · exact hinv.saves j f hf

/-- A call that changes no code, on a handle that stays as it was if it is installed. -/
theorem chainInv_same (hinv : ChainInv P s₀ cs)
    (hmapped : ∀ a, s₀.mapped a = true → world.mapped a = true)
    (hpages : ∀ f, next = some f → ∀ page ∈ f.pageList, ∀ a, InRange page.addr P.pageSize a →
      s₀.mapped a = false)
    (hsaves : ∀ f, next = some f → SavesTargets P s₀ f)
    (hbytes : ∀ a, s₀.mapped a = true → world.bytes a = cs.world.bytes a)
    (hsame : next.any FunchookT.installed = cs.isInstalled i ∧
      (cs.isInstalled i = true → ∃ fh f, cs.handles i = some fh ∧ next = some f ∧
        f.entries = fh.entries)) :
    ChainInv P s₀ ⟨cs.setHandle world i next,
      nextOrder (cs.setHandle world i next) cs.order i⟩ := by
  have horder : nextOrder (cs.setHandle world i next) cs.order i = cs.order := by
    unfold nextOrder
    rw [isInstalled_setHandle_self, hsame.1]
    split
    · rename_i hinst
      exact if_pos ((hinv.listed i).mpr hinst)
    · rename_i hinst
      exact List.erase_of_not_mem fun h => hinst ((hinv.listed i).mp h)
  have hchange : cs.order.map ((cs.setHandle world i next).change P s₀) =
      cs.order.map (cs.change P s₀) := by
    refine List.map_congr_left fun j hj => ?_
    by_cases hji : j = i
    · subst hji
      obtain ⟨fh, f, hfh, rfl, hentries⟩ := hsame.2 ((hinv.listed j).mp hj)
      rw [change_of_handle (setHandle_self ..), change_of_handle hfh, change_congr hentries]
    · exact change_setHandle_of_ne hji
  have hcode : codeOf s₀ world = codeOf s₀ cs.world := funext fun a => hbytes a a.2
  refine chainInv_setHandle hinv hmapped hpages hsaves ?_ ?_
  · rw [horder, hchange, hcode, hinv.code]
  · rw [horder, hchange]
    exact hinv.saved

end Update

/-! ## The calls -/

section Calls

variable {cs : ChainState w} {i : ℕ} {fh : FunchookT w}

theorem chainInv_prepare (hinv : ChainInv P s₀ cs) (hfh : cs.handles i = some fh)
    {targetFunc : Addr w} {params : FunchookParams w} {answer : AllocAnswer w}
    {r : PrepareResult w} (hfresh : answer.Fresh P cs.world)
    (h : funchookPrepareInternal P fh cs.world targetFunc params answer = some r) :
    ChainInv P s₀ ⟨cs.setHandle r.world i (some r.fh),
      nextOrder (cs.setHandle r.world i (some r.fh)) cs.order i⟩ := by
  have hframe : ∀ a, s₀.mapped a = true →
      r.world.bytes a = cs.world.bytes a ∧ r.world.mapped a = true := fun a ha =>
    prepare_frame hfresh h (hinv.mapped a ha) fun page hpage hin => by
      have hout := hinv.pages i fh hfh page hpage a hin
      rw [ha] at hout
      cases hout
  refine chainInv_same hinv (fun a ha => (hframe a ha).2) ?_ ?_ (fun a ha => (hframe a ha).1)
    ⟨?_, fun hinst => ⟨fh, r.fh, hfh, rfl, ?_⟩⟩
  · rintro f ⟨⟩ page hpage a ha
    rcases prepare_pageList h hpage with ⟨page', hpage', haddr⟩ | halloc
    · exact hinv.pages i fh hfh page' hpage' a (haddr ▸ ha)
    · cases hm : s₀.mapped a with
      | false => rfl
      | true => exact absurd (hinv.mapped a hm) (by rw [hfresh _ halloc a ha]; decide)
  · rintro f ⟨⟩ e he a ha hta
    rcases prepare_entries hfresh h he with hmem | ⟨-, hsaved⟩
    · exact hinv.saves i fh hfh e hmem a ha hta
    · rw [hsaved a (hinv.mapped a ha) hta]
      rfl
  · rw [isInstalled_of_handle hfh]
    exact prepare_installed h
  · rw [isInstalled_of_handle hfh] at hinst
    rw [funchookPrepareInternal, if_pos hinst] at h
    cases h
    rfl

theorem chainInv_install (hinv : ChainInv P s₀ cs) (hfh : cs.handles i = some fh)
    {os : List OsAnswer} (hos : ∀ a ∈ os, a = .ok)
    (hfinds : fh.installed = false → ∀ e ∈ fh.entries, ∀ a, P.TargetByte e a →
      s₀.mapped a = true → (P.oldPatch e).byteAt a = some (cs.world.bytes a)) :
    ChainInv P s₀ ⟨cs.setHandle (funchookInstallInternal P fh cs.world os).world i
        (some (funchookInstallInternal P fh cs.world os).fh),
      nextOrder (cs.setHandle (funchookInstallInternal P fh cs.world os).world i
        (some (funchookInstallInternal P fh cs.world os).fh)) cs.order i⟩ := by
  cases hinst : fh.installed with
  | true =>
    rw [install_installed fh cs.world os hinst]
    refine chainInv_same hinv hinv.mapped ?_ ?_ (fun _ _ => rfl)
      ⟨(isInstalled_of_handle hfh).symm, fun _ => ⟨fh, fh, hfh, rfl, rfl⟩⟩
    · rintro f ⟨⟩
      exact hinv.pages i fh hfh
    · rintro f ⟨⟩
      exact hinv.saves i fh hfh
  | false =>
    obtain ⟨hb, hm, hp, ⟨hfailed, -, -⟩ | ⟨hall, -, hinst'⟩⟩ :=
      install_spec (P := P) fh cs.world os hinst
    · rw [installReach_ok fh.pageList hos] at hfailed
      cases hfailed
    · generalize funchookInstallInternal P fh cs.world os = r at hb hm hp hinst' ⊢
      have hentries : r.fh.entries = fh.entries := flatMap_entries_eq hp
      have hout : i ∉ cs.order := fun h => by
        rw [hinv.listed, isInstalled_of_handle hfh, hinst] at h
        cases h
      have horder : nextOrder (cs.setHandle r.world i (some r.fh)) cs.order i = i :: cs.order := by
        rw [nextOrder, isInstalled_setHandle_self, if_pos (by exact hinst'), if_neg hout]
      have hchange : (i :: cs.order).map ((cs.setHandle r.world i (some r.fh)).change P s₀) =
          fh.change P s₀ :: cs.order.map (cs.change P s₀) := by
        rw [List.map_cons, map_change_setHandle hout, change_of_handle (setHandle_self ..),
          change_congr hentries]
      rw [installReach_all hall] at hb
      refine chainInv_setHandle hinv (fun a ha => hm ▸ hinv.mapped a ha) ?_ ?_ ?_ ?_
      · rintro f ⟨⟩ page hpage a ha
        obtain ⟨page', hpage', haddr⟩ := mem_pageList_of_contents hp hpage
        exact hinv.pages i fh hfh page' hpage' a (haddr ▸ ha)
      · rintro f ⟨⟩
        rw [SavesTargets, hentries]
        exact hinv.saves i fh hfh
      · rw [horder, hchange, codeOf_install hb, hinv.code]
        rfl
      · rw [horder, hchange]
        refine ⟨⟨change_complete (hinv.saves i fh hfh), ?_⟩, hinv.saved⟩
        rw [← hinv.code]
        exact change_found (hfinds hinst)

theorem chainInv_uninstall (hinv : ChainInv P s₀ cs) (hfh : cs.handles i = some fh)
    {os : List OsAnswer} (hos : ∀ a ∈ os, a = .ok)
    (htop : OnTop (cs.change P s₀ i) ((newerThan cs.order i).map (cs.change P s₀))) :
    ChainInv P s₀ ⟨cs.setHandle (funchookUninstallInternal P fh cs.world os).world i
        (some (funchookUninstallInternal P fh cs.world os).fh),
      nextOrder (cs.setHandle (funchookUninstallInternal P fh cs.world os).world i
        (some (funchookUninstallInternal P fh cs.world os).fh)) cs.order i⟩ := by
  cases hinst : fh.installed with
  | false =>
    rw [uninstall_not_installed fh cs.world os hinst]
    refine chainInv_same hinv hinv.mapped ?_ ?_ (fun _ _ => rfl)
      ⟨(isInstalled_of_handle hfh).symm, fun _ => ⟨fh, fh, hfh, rfl, rfl⟩⟩
    · rintro f ⟨⟩
      exact hinv.pages i fh hfh
    · rintro f ⟨⟩
      exact hinv.saves i fh hfh
  | true =>
    obtain ⟨hb, hm, hp, ⟨hfailed, -, -⟩ | ⟨hall, -, hinst'⟩⟩ :=
      uninstall_spec (P := P) fh cs.world os hinst
    · rw [uninstallReach_ok fh.pageList hos] at hfailed
      cases hfailed
    · generalize funchookUninstallInternal P fh cs.world os = r at hb hm hp hinst' ⊢
      have hentries : r.fh.entries = fh.entries := flatMap_entries_eq hp
      have hin : i ∈ cs.order := by
        rw [hinv.listed, isInstalled_of_handle hfh]
        exact hinst
      have horder : nextOrder (cs.setHandle r.world i (some r.fh)) cs.order i =
          cs.order.erase i := by
        rw [nextOrder, isInstalled_setHandle_self, if_neg (by rw [Option.any_some, hinst']; decide)]
      have hchange : (cs.order.erase i).map ((cs.setHandle r.world i (some r.fh)).change P s₀) =
          (cs.order.erase i).map (cs.change P s₀) :=
        map_change_setHandle hinv.nodup.not_mem_erase
      obtain ⟨hundo, hsaved⟩ := undo_name hinv.saved hin htop
      rw [uninstallReach_all hall] at hb
      refine chainInv_setHandle hinv (fun a ha => hm ▸ hinv.mapped a ha) ?_ ?_ ?_ ?_
      · rintro f ⟨⟩ page hpage a ha
        obtain ⟨page', hpage', haddr⟩ := mem_pageList_of_contents hp hpage
        exact hinv.pages i fh hfh page' hpage' a (haddr ▸ ha)
      · rintro f ⟨⟩
        rw [SavesTargets, hentries]
        exact hinv.saves i fh hfh
      · rw [horder, hchange, codeOf_uninstall hb, ← change_of_handle hfh, hinv.code]
        exact hundo
      · rw [horder, hchange]
        exact hsaved

theorem chainInv_destroy (hinv : ChainInv P s₀ cs) (hfh : cs.handles i = some fh)
    (os : List OsAnswer) {st' : ManyState w}
    (h : st' = if (funchookDestroyInternal P fh cs.world os).1 = errorSuccess then
      cs.setHandle (funchookDestroyInternal P fh cs.world os).2 i none
      else cs.setHandle (funchookDestroyInternal P fh cs.world os).2 i (some fh)) :
    ChainInv P s₀ ⟨st', nextOrder st' cs.order i⟩ := by
  cases hinst : fh.installed with
  | true =>
    rw [destroy_installed fh cs.world os hinst,
      if_neg (show errorAlreadyInstalled ≠ errorSuccess by decide)] at h
    subst h
    refine chainInv_same hinv hinv.mapped ?_ ?_ (fun _ _ => rfl)
      ⟨(isInstalled_of_handle hfh).symm, fun _ => ⟨fh, fh, hfh, rfl, rfl⟩⟩
    · rintro f ⟨⟩
      exact hinv.pages i fh hfh
    · rintro f ⟨⟩
      exact hinv.saves i fh hfh
  | false =>
    rw [destroy_not_installed fh cs.world os hinst, if_pos rfl] at h
    subst h
    have hnot : cs.isInstalled i = false := (isInstalled_of_handle hfh).trans hinst
    refine chainInv_same hinv (fun a ha => ?_) (fun f hf => by cases hf) (fun f hf => by cases hf)
      (fun a _ => congrFun (freePages_bytes _ _ _) a)
      ⟨hnot.symm, fun h => absurd (hnot.symm.trans h) (by decide)⟩
    refine freePages_mapped os (hinv.mapped a ha) fun page hpage hin => ?_
    have hout := hinv.pages i fh hfh page hpage a hin
    rw [ha] at hout
    cases hout

end Calls

/-- **Step.** -/
theorem chainInv_step {cs cs' : ChainState w} {c : ManyCall w} (hinv : ChainInv P s₀ cs)
    (hnested : Nested P s₀ cs c) (hstep : ChainStep P cs c cs') : ChainInv P s₀ cs' := by
  obtain ⟨st', order'⟩ := cs'
  obtain ⟨⟨hfresh, hcall⟩, horder⟩ := hstep
  dsimp only at horder hcall
  subst horder
  cases c with
  | create i =>
    rw [ManyState.step] at hcall
    cases hnone : cs.handles i with
    | none =>
      rw [hnone] at hcall
      cases hcall
      have hnot : cs.isInstalled i = false := by rw [ManyState.isInstalled, hnone]; rfl
      refine chainInv_same hinv hinv.mapped ?_ ?_ (fun _ _ => rfl)
        ⟨hnot.symm, fun h => absurd (hnot.symm.trans h) (by decide)⟩
      · rintro f ⟨⟩ page hpage
        cases hpage
      · rintro f ⟨⟩ e he
        cases he
    | some fh =>
      rw [hnone] at hcall
      cases hcall
  | on i d =>
    obtain ⟨fh, hfh, hcall⟩ := Option.bind_eq_some_iff.mp hcall
    obtain ⟨r, hr, hcall⟩ := Option.bind_eq_some_iff.mp hcall
    cases hcall
    have hfresh := hfresh i d rfl
    cases d with
    | prepare targetFunc hookFunc answer =>
      obtain ⟨q, hq, rfl⟩ := Option.map_eq_some_iff.mp hr
      exact chainInv_prepare hinv hfh hfresh hq
    | prepareWithParams targetFunc params answer =>
      obtain ⟨q, hq, rfl⟩ := Option.map_eq_some_iff.mp hr
      exact chainInv_prepare hinv hfh hfresh hq
    | install os =>
      cases hr
      exact chainInv_install hinv hfh hnested.osSucceeds (hnested.findsSaved i os fh rfl hfh)
    | uninstall os =>
      cases hr
      refine chainInv_uninstall hinv hfh hnested.osSucceeds fun d hd a hcovers hcovers' => ?_
      obtain ⟨j, hj, rfl⟩ := List.mem_map.mp hd
      rw [change_of_handle hfh] at hcovers
      cases hfh' : cs.handles j with
      | none =>
        rw [ManyState.change, hfh'] at hcovers'
        cases hcovers'
      | some fh' =>
        rw [change_of_handle hfh'] at hcovers'
        obtain ⟨e, he, hta⟩ := change_covers hcovers
        obtain ⟨e', he', hta'⟩ := change_covers hcovers'
        exact hnested.onTop i os fh rfl hfh j hj fh' hfh' e he e' he' a a.2 hta hta'
  | destroy i os =>
    obtain ⟨fh, hfh, hcall⟩ := Option.bind_eq_some_iff.mp hcall
    exact chainInv_destroy hinv hfh os (Option.some.inj hcall).symm

/-- **Hooks nest.** In every run of several handles in which no call of the memory layer fails,
each install finds the code that its prepares have saved and each uninstall no newer handle on the
same bytes, the code is the original with the patches of the installed handles on top of each
other, in the order of their installs. So it is original whenever none is installed, and an
uninstall leaves what the handles below it had left. -/
theorem chained_hooks {cs : ChainState w}
    (hrun : Run (ChainStep P) (Nested P s₀) (.start s₀) cs) :
    cs.order.Nodup ∧ (∀ i, i ∈ cs.order ↔ cs.isInstalled i = true) ∧
      codeOf s₀ cs.world = layers (cs.order.map (cs.change P s₀)) (codeOf s₀ s₀) ∧
        (cs.NoneInstalled → codeOf s₀ cs.world = codeOf s₀ s₀) := by
  have hinv : ChainInv P s₀ cs := hrun.invariant (chainInv_start P s₀)
    fun _ _ _ hinv hnested hstep => chainInv_step hinv hnested hstep
  refine ⟨hinv.nodup, hinv.listed, hinv.code, fun hnone => ?_⟩
  have hempty : cs.order = [] := by
    refine List.eq_nil_iff_forall_not_mem.mpr fun i hi => ?_
    rw [hinv.listed] at hi
    cases hfh : cs.handles i with
    | none =>
      rw [ManyState.isInstalled, hfh] at hi
      cases hi
    | some fh =>
      rw [isInstalled_of_handle hfh, hnone i fh hfh] at hi
      cases hi
  rw [hinv.code, hempty]
  rfl

/-! ## A hook on a hooked function -/

def sampleOrder : List (ManyCall 64) → List ℕ
  | [] => []
  | c :: cs => nextOrder (sampleAfter (c :: cs)) (sampleOrder cs) c.name

/-- The sample process after some calls, the last one first. -/
def sampleChain (cs : List (ManyCall 64)) : ChainState 64 := ⟨sampleAfter cs, sampleOrder cs⟩

def SampleChains (cs : List (ManyCall 64)) : Prop :=
  Run (ChainStep samplePlatform) (Nested samplePlatform X86.sampleWorld)
    (.start X86.sampleWorld) (sampleChain cs)

theorem SampleChains.call {cs : List (ManyCall 64)} (h : SampleChains cs) {c : ManyCall 64}
    (hnested : Nested samplePlatform X86.sampleWorld (sampleChain cs) c)
    (hfresh : ∀ i d, c = .on i d → d.Fresh samplePlatform (sampleAfter cs).world)
    (hstep : ((sampleAfter cs).step samplePlatform c).isSome = true) :
    SampleChains (c :: cs) := by
  refine Run.call h c hnested ⟨⟨hfresh, ?_⟩, rfl⟩
  obtain ⟨st, hst⟩ := Option.isSome_iff_exists.mp hstep
  show (sampleAfter cs).step samplePlatform c = some (sampleAfter (c :: cs))
  rw [sampleAfter, hst, Option.getD_some]

theorem nested_create (s₀ : World w) (cs : ChainState w) (i : ℕ) :
    Nested P s₀ cs (.create i) :=
  ⟨trivial, (fun _ _ _ h => by cases h), fun _ _ _ h => by cases h⟩

theorem nested_prepare {cs : ChainState w} {i : ℕ} {targetFunc hookFunc : Addr w}
    {answer : AllocAnswer w} (hos : (∃ p, answer.alloc = .ok p) ∧ answer.free = .ok) :
    Nested P s₀ cs (.on i (.prepare targetFunc hookFunc answer)) :=
  ⟨hos, (fun _ _ _ h => by cases h), fun _ _ _ h => by cases h⟩

/-- What the entries of a handle have saved is in the memory. -/
theorem nested_install {cs : ChainState w} {i : ℕ} {fh : FunchookT w}
    (hfh : cs.handles i = some fh)
    (hold : ∀ e ∈ fh.entries, e.oldCode = readBytes cs.world.bytes e.targetFunc
      (P.maxPatchCodeSize * P.insnSize) ∧ e.patchCodeSize.toNat ≤ P.maxPatchCodeSize) :
    Nested P s₀ cs (.on i (.install [])) := by
  refine ⟨(fun _ h => by cases h), ?_, fun _ _ _ h => by cases h⟩
  rintro j os f ⟨⟩ hf - e he a hta -
  cases hfh.symm.trans hf
  exact oldPatch_byteAt (hold e he).1 (hold e he).2 hta

theorem nested_uninstall {cs : ChainState w} {i : ℕ} (h : newerThan cs.order i = []) :
    Nested P s₀ cs (.on i (.uninstall [])) := by
  refine ⟨(fun _ h => by cases h), (fun _ _ _ h => by cases h), ?_⟩
  rintro j os f ⟨⟩ - k hk
  rw [h] at hk
  cases hk

/-- The second handle is prepared and installed while the first is installed. -/
def sampleNested : List (ManyCall 64) :=
  [sampleInstallOf 1, sampleSecond, .create 1, sampleInstallOf 0, sampleFirst, .create 0]

theorem sampleNested_chains : SampleChains sampleNested := by
  have hstart : SampleChains [] := Run.start
  have hcreated := hstart.call (c := .create 0) (nested_create ..) (fun _ _ h => by cases h)
    (by decide +kernel)
  have hfirst := hcreated.call (c := sampleFirst) (nested_prepare ⟨⟨_, rfl⟩, rfl⟩)
    (sampleFirst_fresh rfl) (by decide +kernel)
  have hinstalled := hfirst.call (c := sampleInstallOf 0)
    (nested_install (Option.some_get (by decide +kernel)).symm (by decide +kernel))
    (fun _ _ h => by cases h; trivial) (by decide +kernel)
  have hcreated₁ := hinstalled.call (c := .create 1) (nested_create ..)
    (fun _ _ h => by cases h) (by decide +kernel)
  have hsecond := hcreated₁.call (c := sampleSecond) (nested_prepare ⟨⟨_, rfl⟩, rfl⟩)
    (sampleSecond_fresh rfl) (by decide +kernel)
  exact hsecond.call (c := sampleInstallOf 1)
    (nested_install (Option.some_get (by decide +kernel)).symm (by decide +kernel))
    (fun _ _ h => by cases h; trivial) (by decide +kernel)

/-- Uninstalled in the opposite order, both handles leave the function as it was. -/
theorem chained_hooks_sample :
    codeOf X86.sampleWorld
      (sampleAfter (sampleUninstallOf 0 :: sampleUninstallOf 1 :: sampleNested)).world =
        codeOf X86.sampleWorld X86.sampleWorld := by
  have hsecond := sampleNested_chains.call (c := sampleUninstallOf 1)
    (nested_uninstall (by decide +kernel)) (fun _ _ h => by cases h; trivial) (by decide +kernel)
  have hfirst := hsecond.call (c := sampleUninstallOf 0)
    (nested_uninstall (by decide +kernel)) (fun _ _ h => by cases h; trivial) (by decide +kernel)
  exact (chained_hooks hfirst).2.2.2
    (noneInstalled_of_two (by decide +kernel) (by decide +kernel) fun _ => rfl)

end Funchook
