import Funchook.EntrySlots

/-!
# The protection of the pages of a handle

The calls of `mprotect` that install and uninstall make are listed in the order they are made, and
what may be done with a byte is read off the list. The pages follow the field `prot` of the model,
as long as the code pages of the targets are not pages of the handle. `installed` is tied to the
protection by an invariant: while it is 0 every page is writable and every target holds the code
saved for it, and while it is 1 every page is executable or has all its targets restored. The calls
that break it are an install that fails after its first `funchook_page_protect`, which leaves
executable pages behind without setting the flag, and an uninstall that ignores a failing
`funchook_page_unprotect`.
-/

namespace Funchook

open ByteMemory Runs

variable {w : ℕ} {P : Platform w}

/-- What may be done with a byte, besides reading it. -/
structure Access where
  write : Bool
  exec : Bool
  deriving DecidableEq, Repr

/-- `PROT_READ | PROT_WRITE` and `PROT_READ | PROT_EXEC` -/
def PageProt.access : PageProt → Access
  | .readWrite => ⟨true, false⟩
  | .readExec => ⟨false, true⟩

/-- A successful call of `mprotect`. -/
structure Mprotect (w : ℕ) where
  addr : Addr w
  size : ℕ
  prot : Access
  deriving DecidableEq, Repr

/-- The access to every byte after the calls. -/
def applyMprotects : List (Mprotect w) → (Addr w → Access) → Addr w → Access
  | [], access => access
  | c :: cs, access =>
    applyMprotects cs fun a => if InRange c.addr c.size a then c.prot else access a

/-- `mstate->addr` and `mstate->size` of `funchook_unprotect_begin`. -/
def codePages (P : Platform w) (start : Addr w) (len : ℕ) : Addr w × ℕ :=
  let unit := BitVec.ofNat w P.pageSize
  let saddr := roundDown start unit
  (saddr, (roundUp (BitVec.ofNat w len + start - saddr) unit).toNat)

/-- `a` is on one of the pages that hold the patched bytes of the target. -/
def OnCodePages (P : Platform w) (start : Addr w) (len : ℕ) (a : Addr w) : Prop :=
  InRange (codePages P start len).1 (codePages P start len).2 a

/-- The call made for an entry before or after its `memcpy`. -/
def codeMprotect (P : Platform w) (e : FunchookEntry w) (prot : Access) : Mprotect w :=
  let pages := codePages P e.targetFunc (P.patchCodeByteSize e)
  ⟨pages.1, pages.2, prot⟩

/-- The inner loop. The first call of an entry uses the static `prot`, which is
read-write-execute or, where that is refused, read-write. -/
def entriesMprotects (P : Platform w) (prot : Access) :
    List (FunchookEntry w) → List OsAnswer → List (Mprotect w)
  | [], _ => []
  | e :: es, os =>
    match nextAnswer os with
    | (.fail _, _) => []
    | (.ok, os) =>
      codeMprotect P e prot ::
        match nextAnswer os with
        | (.fail _, _) => []
        | (.ok, os) =>
          codeMprotect P e PageProt.readExec.access :: entriesMprotects P prot es os

/-- The page loop of install. -/
def installMprotects (P : Platform w) (prot : Access) :
    List (FunchookPage w) → List OsAnswer → List (Mprotect w)
  | [], _ => []
  | page :: pages, os =>
    match nextAnswer os with
    | (.fail _, _) => []
    | (.ok, os) =>
      let r := entriesReach page.entries os
      ⟨page.addr, P.pageSize, PageProt.readExec.access⟩ ::
        (entriesMprotects P prot page.entries os ++
          if r.failed then [] else installMprotects P prot pages r.answers)

/-- The page loop of uninstall. -/
def uninstallMprotects (P : Platform w) (prot : Access) :
    List (FunchookPage w) → List OsAnswer → List (Mprotect w)
  | [], _ => []
  | page :: pages, os =>
    let r := entriesReach page.entries os
    entriesMprotects P prot page.entries os ++
      if r.failed then []
      else
        match nextAnswer r.answers with
        | (.ok, os) =>
          ⟨page.addr, P.pageSize, PageProt.readWrite.access⟩ :: uninstallMprotects P prot pages os
        | (.fail _, os) => uninstallMprotects P prot pages os

/-! ## The calls and the field `prot` -/

theorem applyMprotects_append (cs ds : List (Mprotect w)) (access : Addr w → Access) :
    applyMprotects (cs ++ ds) access = applyMprotects ds (applyMprotects cs access) := by
  induction cs generalizing access with
  | nil => rfl
  | cons c cs ih => exact ih _

/-- The calls for the entries of a page do not reach a byte outside their code pages. -/
theorem entriesMprotects_frame (prot : Access) {es : List (FunchookEntry w)} {a : Addr w}
    (h : ∀ e ∈ es, ¬ OnCodePages P e.targetFunc (P.patchCodeByteSize e) a) (os : List OsAnswer)
    (access : Addr w → Access) :
    applyMprotects (entriesMprotects P prot es os) access a = access a := by
  induction es generalizing os access with
  | nil => rfl
  | cons e es ih =>
    have hout : ∀ prot', ¬ InRange (codeMprotect P e prot').addr (codeMprotect P e prot').size a :=
      fun _ => h e List.mem_cons_self
    have hrest := ih fun e' he' => h e' (List.mem_cons_of_mem e he')
    rcases hbegin : nextAnswer os with ⟨_ | message, os₁⟩
    · rcases hend : nextAnswer os₁ with ⟨_ | message, os₂⟩
      · simp only [entriesMprotects, hbegin, hend, applyMprotects]
        rw [hrest, if_neg (hout _), if_neg (hout _)]
      · simp only [entriesMprotects, hbegin, hend, applyMprotects]
        rw [if_neg (hout _)]
    · simp only [entriesMprotects, hbegin, applyMprotects]

/-- The pages of the list that hold `a` grant the access that their `prot` says. -/
def AccessAgrees (P : Platform w) (pages : List (FunchookPage w)) (access : Addr w → Access)
    (a : Addr w) : Prop :=
  ∀ page ∈ pages, InRange page.addr P.pageSize a → access a = page.prot.access

/-- No code page of an entry of the pages holds `a`. -/
def OffCodePages (P : Platform w) (pages : List (FunchookPage w)) (a : Addr w) : Prop :=
  ∀ page ∈ pages, ∀ e ∈ page.entries, ¬ OnCodePages P e.targetFunc (P.patchCodeByteSize e) a

theorem AccessAgrees.congr {pages : List (FunchookPage w)} {access access' : Addr w → Access}
    {a : Addr w} (h : AccessAgrees P pages access a) (hsame : access' a = access a) :
    AccessAgrees P pages access' a :=
  fun page hpage ha => hsame.trans (h page hpage ha)

/-- Protecting the first page of a list changes nothing on the others. -/
theorem accessAgrees_protect {page : FunchookPage w} {pages : List (FunchookPage w)}
    {access : Addr w → Access} {a : Addr w} (hagree : AccessAgrees P (page :: pages) access a)
    (hapart : ∀ q ∈ pages, PagesApart P page.addr q.addr) (prot : PageProt) :
    AccessAgrees P ({ page with prot := prot } :: pages)
      (fun b => if InRange page.addr P.pageSize b then prot.access else access b) a := by
  intro q hq ha
  rcases List.mem_cons.mp hq with rfl | hq
  · exact if_pos ha
  · have hnot : ¬ InRange page.addr P.pageSize a := fun hin => hapart q hq a hin ha
    exact (if_neg hnot).trans (hagree q (List.mem_cons_of_mem _ hq) ha)

theorem AccessAgrees.tail {page : FunchookPage w} {pages : List (FunchookPage w)}
    {access : Addr w → Access} {a : Addr w} (h : AccessAgrees P (page :: pages) access a) :
    AccessAgrees P pages access a :=
  fun q hq => h q (List.mem_cons_of_mem _ hq)

theorem OffCodePages.tail {page : FunchookPage w} {pages : List (FunchookPage w)} {a : Addr w}
    (h : OffCodePages P (page :: pages) a) : OffCodePages P pages a :=
  fun q hq => h q (List.mem_cons_of_mem _ hq)

/-- The first page of a list agrees, and what follows keeps off it and keeps the others agreeing. -/
theorem accessAgrees_cons {page : FunchookPage w} {pages pages' : List (FunchookPage w)}
    {access access' : Addr w → Access} {a : Addr w}
    (hapart : ∀ q ∈ pages, PagesApart P page.addr q.addr)
    (hhead : InRange page.addr P.pageSize a → access a = page.prot.access)
    (hkept : (∀ q ∈ pages, ¬ InRange q.addr P.pageSize a) → access' a = access a)
    (htail : AccessAgrees P pages' access' a) : AccessAgrees P (page :: pages') access' a := by
  intro q hq ha
  rcases List.mem_cons.mp hq with rfl | hq
  · rw [hkept fun q' hq' hin => hapart q' hq' a ha hin]
    exact hhead ha
  · exact htail q hq ha

/-- **Install.** The field `prot` of the pages follows the calls of `mprotect`. -/
theorem installPages_agree (prot : Access) {pages : List (FunchookPage w)} {a : Addr w}
    (hoff : OffCodePages P pages a) (hapart : pages.Pairwise fun p q => PagesApart P p.addr q.addr)
    (m : Mem w) (os : List OsAnswer) {access : Addr w → Access}
    (hagree : AccessAgrees P pages access a) :
    ((∀ page ∈ pages, ¬ InRange page.addr P.pageSize a) →
        applyMprotects (installMprotects P prot pages os) access a = access a) ∧
      AccessAgrees P (installPages P pages m os).pageList
        (applyMprotects (installMprotects P prot pages os) access) a := by
  induction pages generalizing m os access with
  | nil => exact ⟨fun _ => rfl, hagree⟩
  | cons page pages ih =>
    obtain ⟨hhead, htail⟩ := List.pairwise_cons.mp hapart
    rcases hprotect : nextAnswer os with ⟨_ | message, os₁⟩
    · obtain ⟨-, hanswers, herror⟩ := patchEntries_reach P.newPatch page.entries m os₁
      have hprotected := accessAgrees_protect hagree hhead .readExec
      have hentries := @entriesMprotects_frame w P prot page.entries a
        (hoff page List.mem_cons_self) os₁
        (fun b => if InRange page.addr P.pageSize b then PageProt.readExec.access else access b)
      simp only [installMprotects, installPages, hprotect, applyMprotects, applyMprotects_append]
      cases hm : (patchEntries P.newPatch page.entries m os₁).error with
      | some message =>
        rw [hm] at herror
        simp only [← herror, Option.isSome_some, if_true, applyMprotects]
        refine ⟨fun hnone => ?_, hprotected.congr hentries⟩
        rw [hentries, if_neg (hnone page List.mem_cons_self)]
      | none =>
        rw [hm] at herror
        simp only [← herror, Option.isSome_none, Bool.false_eq_true, if_false]
        rw [hanswers]
        obtain ⟨hkept, hrest⟩ := ih hoff.tail htail
          (patchEntries P.newPatch page.entries m os₁).bytes
          (entriesReach page.entries os₁).answers (hprotected.tail.congr hentries)
        refine ⟨fun hnone => ?_, ?_⟩
        · rw [hkept fun q hq => hnone q (List.mem_cons_of_mem _ hq), hentries,
            if_neg (hnone page List.mem_cons_self)]
        · refine @accessAgrees_cons w P { page with prot := .readExec } pages _ _ _ a hhead
            (fun ha => ?_) hkept hrest
          rw [hentries]
          exact if_pos ha
    · simp only [installMprotects, installPages, hprotect, applyMprotects]
      exact ⟨fun _ => trivial, hagree⟩

/-- **Uninstall.** The field `prot` of the pages follows the calls of `mprotect`. -/
theorem uninstallPages_agree (prot : Access) {pages : List (FunchookPage w)} {a : Addr w}
    (hoff : OffCodePages P pages a) (hapart : pages.Pairwise fun p q => PagesApart P p.addr q.addr)
    (m : Mem w) (os : List OsAnswer) (note : Option String) {access : Addr w → Access}
    (hagree : AccessAgrees P pages access a) :
    ((∀ page ∈ pages, ¬ InRange page.addr P.pageSize a) →
        applyMprotects (uninstallMprotects P prot pages os) access a = access a) ∧
      AccessAgrees P (uninstallPages P pages m os note).1.pageList
        (applyMprotects (uninstallMprotects P prot pages os) access) a := by
  induction pages generalizing m os note access with
  | nil => exact ⟨fun _ => rfl, hagree⟩
  | cons page pages ih =>
    obtain ⟨hhead, htail⟩ := List.pairwise_cons.mp hapart
    obtain ⟨-, hanswers, herror⟩ := patchEntries_reach P.oldPatch page.entries m os
    have hentries := @entriesMprotects_frame w P prot page.entries a
      (hoff page List.mem_cons_self) os access
    simp only [uninstallMprotects, uninstallPages, applyMprotects_append]
    cases hm : (patchEntries P.oldPatch page.entries m os).error with
    | some message =>
      rw [hm] at herror
      simp only [← herror, Option.isSome_some, if_true, applyMprotects]
      exact ⟨fun _ => hentries, hagree.congr hentries⟩
    | none =>
      rw [hm] at herror
      simp only [← herror, Option.isSome_none, Bool.false_eq_true, if_false]
      rw [hanswers]
      have hagree' := hagree.congr hentries
      rcases nextAnswer (entriesReach page.entries os).answers with ⟨_ | message, os₁⟩
      · have hprotected := accessAgrees_protect hagree' hhead .readWrite
        obtain ⟨hkept, hrest⟩ := ih hoff.tail htail
          (patchEntries P.oldPatch page.entries m os).bytes os₁ note hprotected.tail
        refine ⟨fun hnone => ?_, ?_⟩
        · refine (hkept fun q hq => hnone q (List.mem_cons_of_mem _ hq)).trans ?_
          rw [if_neg (hnone page List.mem_cons_self), hentries]
        · exact @accessAgrees_cons w P { page with prot := .readWrite } pages _
            (fun b => if InRange page.addr P.pageSize b then PageProt.readWrite.access
              else applyMprotects (entriesMprotects P prot page.entries os) access b) _ a hhead
            (fun ha => if_pos ha) hkept hrest
      · obtain ⟨hkept, hrest⟩ := ih hoff.tail htail
          (patchEntries P.oldPatch page.entries m os).bytes os₁ (some message) hagree'.tail
        refine ⟨fun hnone => ?_, ?_⟩
        · rw [hkept fun q hq => hnone q (List.mem_cons_of_mem _ hq), hentries]
        · exact accessAgrees_cons hhead (hagree' page List.mem_cons_self) hkept hrest

/-! ## Which pages end up writable -/

/-- An install in which no call fails leaves every page executable. -/
theorem installPages_readExec {pages : List (FunchookPage w)} {m : Mem w} {os : List OsAnswer}
    (h : (installPages P pages m os).error = none) :
    ∀ page ∈ (installPages P pages m os).pageList, page.prot = .readExec := by
  induction pages generalizing m os with
  | nil => exact fun page hpage => by cases hpage
  | cons page pages ih =>
    rcases hprotect : nextAnswer os with ⟨_ | message, os₁⟩
    · cases hm : (patchEntries P.newPatch page.entries m os₁).error with
      | some message =>
        simp only [installPages, hprotect, hm] at h
        cases h
      | none =>
        simp only [installPages, hprotect, hm] at h ⊢
        intro q hq
        rcases List.mem_cons.mp hq with rfl | hq
        · rfl
        · exact ih h q hq
    · simp only [installPages, hprotect] at h
      cases h

/-- Each `funchook_page_unprotect` succeeds, or is about a page that is writable already. -/
def UnprotectsPages : List (FunchookPage w) → List OsAnswer → Prop
  | [], _ => True
  | page :: pages, os =>
    (page.prot = .readWrite ∨ (nextAnswer (entriesReach page.entries os).answers).1 = .ok) ∧
      UnprotectsPages pages (nextAnswer (entriesReach page.entries os).answers).2

theorem uninstallPages_readWrite {pages : List (FunchookPage w)} {m : Mem w} {os : List OsAnswer}
    {note : Option String} (hall : (uninstallReach pages os).failed = false)
    (h : UnprotectsPages pages os) :
    ∀ page ∈ (uninstallPages P pages m os note).1.pageList, page.prot = .readWrite := by
  induction pages generalizing m os note with
  | nil => exact fun page hpage => by cases hpage
  | cons page pages ih =>
    obtain ⟨-, hanswers, herror⟩ := patchEntries_reach P.oldPatch page.entries m os
    obtain ⟨hhead, htail⟩ := h
    unfold uninstallReach at hall
    cases hf : (entriesReach page.entries os).failed with
    | true =>
      simp only [hf, if_true] at hall
      cases hall
    | false =>
      simp only [hf, Bool.false_eq_true, if_false] at hall
      have hnone : (patchEntries P.oldPatch page.entries m os).error = none := by
        rw [hf] at herror
        exact Option.not_isSome_iff_eq_none.mp (by rw [herror]; decide)
      simp only [uninstallPages, hnone]
      rw [hanswers]
      rcases hnext : nextAnswer (entriesReach page.entries os).answers with ⟨_ | message, os₁⟩
      all_goals
        rw [hnext] at hhead htail hall
        dsimp only at hhead htail hall ⊢
        intro q hq
        rcases List.mem_cons.mp hq with rfl | hq
      · rfl
      · exact ih hall htail q hq
      · exact hhead.resolve_right (by simp)
      · exact ih hall htail q hq

/-- A page that uninstall leaves writable was writable, or has had its entries restored. -/
theorem uninstallPages_writable {pages : List (FunchookPage w)} {m : Mem w} {os : List OsAnswer}
    {note : Option String} {page' : FunchookPage w}
    (hpage' : page' ∈ (uninstallPages P pages m os note).1.pageList)
    (hprot : page'.prot = .readWrite) :
    page' ∈ pages ∨ ∀ e ∈ page'.entries, e ∈ (uninstallReach pages os).done := by
  induction pages generalizing m os note with
  | nil => cases hpage'
  | cons page pages ih =>
    obtain ⟨-, hanswers, herror⟩ := patchEntries_reach P.oldPatch page.entries m os
    unfold uninstallReach
    cases hf : (entriesReach page.entries os).failed with
    | true =>
      have hsome : (patchEntries P.oldPatch page.entries m os).error.isSome = true := by
        rw [herror, hf]
      obtain ⟨message, hm⟩ := Option.isSome_iff_exists.mp hsome
      simp only [uninstallPages, hm] at hpage'
      exact Or.inl hpage'
    | false =>
      have hnone : (patchEntries P.oldPatch page.entries m os).error = none := by
        rw [hf] at herror
        exact Option.not_isSome_iff_eq_none.mp (by rw [herror]; decide)
      have hdone : ∀ e ∈ page.entries, e ∈ (entriesReach page.entries os).done := by
        rw [entriesReach_all hf]
        exact fun e he => he
      simp only [uninstallPages, hnone] at hpage'
      rw [hanswers] at hpage'
      simp only [hf, Bool.false_eq_true, if_false]
      rcases hnext : nextAnswer (entriesReach page.entries os).answers with ⟨_ | message, os₁⟩
      all_goals
        rw [hnext] at hpage'
        dsimp only at hpage' ⊢
        rcases List.mem_cons.mp hpage' with rfl | hrest
      · exact Or.inr fun e he => List.mem_append_left _ (hdone e he)
      · exact (ih hrest).imp (List.mem_cons_of_mem _)
          fun h e he => List.mem_append_right _ (h e he)
      · exact Or.inl List.mem_cons_self
      · exact (ih hrest).imp (List.mem_cons_of_mem _)
          fun h e he => List.mem_append_right _ (h e he)

/-! ## The protection and the flag -/

/-- The target of the entry holds the code that was saved for it. -/
def HoldsSaved (P : Platform w) (m : Mem w) (e : FunchookEntry w) : Prop :=
  ∀ a, P.TargetByte e a → (P.oldPatch e).byteAt a = some (m a)

/-- The jump of the entry is in its target: the new code is there, and is not the code saved. -/
structure JumpPresent (P : Platform w) (m : Mem w) (e : FunchookEntry w) : Prop where
  newCode : ∀ a, P.TargetByte e a → (P.newPatch e).byteAt a = some (m a)
  changed : ∃ a, P.TargetByte e a ∧ (P.oldPatch e).byteAt a ≠ some (m a)

/-- A handle, the process, and what may be done with every byte. -/
structure ProtState (w : ℕ) extends HandleState w where
  access : Addr w → Access

def ProtState.start (s₀ : World w) (access₀ : Addr w → Access) : ProtState w :=
  ⟨.start s₀, access₀⟩

/-- The calls of `mprotect` that a call on the handle makes. -/
def Call.mprotects (P : Platform w) (prot : Access) (fh : FunchookT w) :
    Call w → List (Mprotect w)
  | .prepare .. => []
  | .prepareWithParams .. => []
  | .install os => if fh.installed then [] else installMprotects P prot fh.pageList os
  | .uninstall os => if fh.installed then uninstallMprotects P prot fh.pageList os else []

/-- Pages are mapped with `PROT_READ | PROT_WRITE`. -/
def mappedAccess (s s' : World w) (access : Addr w → Access) (a : Addr w) : Access :=
  if s'.mapped a && !s.mapped a then PageProt.readWrite.access else access a

def ProtStep (P : Platform w) (st : ProtState w) (c : Call w) (st' : ProtState w) : Prop :=
  HandleStep P st.toHandleState c st'.toHandleState ∧ ∃ prot : Access,
    st'.access = applyMprotects (c.mprotects P prot st.fh)
      (mappedAccess st.world st'.world st.access)

/-- `installed` is 0 and every page is writable, or `installed` is 1 and every page with an entry
whose jump is present is executable. -/
structure ProtectionFollowsFlag (P : Platform w) (st : ProtState w) : Prop where
  writable : st.fh.installed = false → ∀ page ∈ st.fh.pageList, ∀ a,
    InRange page.addr P.pageSize a → (st.access a).write = true
  executable : st.fh.installed = true → ∀ page ∈ st.fh.pageList,
    (∃ e ∈ page.entries, JumpPresent P st.world.bytes e) →
      ∀ a, InRange page.addr P.pageSize a → (st.access a).exec = true

/-- The patch that a prepare builds lies in mapped pages that are not pages of the handle, wherever
its entry goes. -/
def CodeApart (P : Platform w) (st : HandleState w) (targetFunc : Addr w)
    (params : FunchookParams w) : Prop :=
  ∀ slot e, EntryMade P st.world targetFunc params slot e →
    ∀ a, P.TargetByte e a ∨ OnCodePages P e.targetFunc (P.patchCodeByteSize e) a →
      st.world.mapped a = true ∧ ∀ page ∈ st.fh.pageList, ¬ InRange page.addr P.pageSize a

/-- The patch that is prepared lies outside the pages of the handle; an install that fails does so
in its first call; an uninstall that succeeds leaves no page executable. -/
def KeepsProtection (P : Platform w) (st : ProtState w) : Call w → Prop
  | .prepare targetFunc hookFunc _ =>
    CodeApart P st.toHandleState targetFunc ⟨hookFunc, 0, 0, 0⟩
  | .prepareWithParams targetFunc params _ => CodeApart P st.toHandleState targetFunc params
  | .install os => st.fh.installed = true ∨ (nextAnswer os).1 ≠ .ok ∨
      (installReach st.fh.pageList os).failed = false
  | .uninstall os => st.fh.installed = false ∨ (uninstallReach st.fh.pageList os).failed = true ∨
      UnprotectsPages st.fh.pageList os

structure ProtInv (P : Platform w) (st : ProtState w) : Prop where
  pages : PagesInv P st.toHandleState
  code : ∀ e ∈ st.fh.entries, ∀ a,
    P.TargetByte e a ∨ OnCodePages P e.targetFunc (P.patchCodeByteSize e) a →
      st.world.mapped a = true ∧ ∀ page ∈ st.fh.pageList, ¬ InRange page.addr P.pageSize a
  agrees : ∀ a, AccessAgrees P st.fh.pageList st.access a
  saved : ∀ e ∈ st.fh.entries, ∀ e' ∈ st.fh.entries, ∀ a, P.TargetByte e a → P.TargetByte e' a →
    (P.oldPatch e).byteAt a = (P.oldPatch e').byteAt a
  isSaved : ∀ e ∈ st.fh.entries, ∀ a, P.TargetByte e a → ((P.oldPatch e).byteAt a).isSome
  writable : st.fh.installed = false → ∀ page ∈ st.fh.pageList, page.prot = .readWrite
  clean : st.fh.installed = false → ∀ e ∈ st.fh.entries, HoldsSaved P st.world.bytes e
  restored : ∀ page ∈ st.fh.pageList, page.prot = .readWrite →
    ∀ e ∈ page.entries, HoldsSaved P st.world.bytes e

theorem protInv_start (P : Platform w) (s₀ : World w) (access₀ : Addr w → Access) :
    ProtInv P (.start s₀ access₀) where
  pages := pagesInv_start P s₀
  code := fun _ h => by cases h
  agrees := fun _ _ h => by cases h
  saved := fun _ h => by cases h
  isSaved := fun _ h => by cases h
  writable := fun _ _ h => by cases h
  clean := fun _ _ h => by cases h
  restored := fun _ h => by cases h

/-- The invariant is enough. -/
theorem ProtInv.followsFlag {st : ProtState w} (hinv : ProtInv P st) :
    ProtectionFollowsFlag P st where
  writable := by
    intro hinst page hpage a ha
    rw [hinv.agrees a page hpage ha, hinv.writable hinst page hpage]
    rfl
  executable := by
    intro hinst page hpage hjump a ha
    obtain ⟨e, he, hpresent⟩ := hjump
    obtain ⟨b, hb, hchanged⟩ := hpresent.changed
    rw [hinv.agrees a page hpage ha]
    cases hprot : page.prot with
    | readExec => rfl
    | readWrite => exact absurd (hinv.restored page hpage hprot e he b hb) hchanged

/-! ## Prepare -/

theorem holdsSaved_of_same {m m' : Mem w} {e : FunchookEntry w} (h : HoldsSaved P m e)
    (hsame : ∀ a, P.TargetByte e a → m' a = m a) : HoldsSaved P m' e := by
  intro a ha
  rw [hsame a ha]
  exact h a ha

theorem foundPage_prot {fh : FunchookT w} {s s' : World w} {addr : Addr w}
    {disp : P.IpDisplacement} {answer : AllocAnswer w} {pages : List (FunchookPage w)} {idx : ℕ}
    {page page' : FunchookPage w} (h : FoundPage P fh s addr disp answer pages idx page s')
    (hpage : page' ∈ pages) :
    page' ∈ fh.pageList ∨ answer.alloc = .ok page'.addr ∧ page'.prot = .readWrite := by
  cases h with
  | reused => exact Or.inl hpage
  | fresh hp =>
    rcases List.mem_cons.mp hpage with rfl | hpage
    · exact Or.inr ⟨hp, rfl⟩
    · exact Or.inl hpage

/-- A page after a prepare was there before with its protection, or has just been mapped. -/
theorem prepare_prot {fh : FunchookT w} {s : World w} {targetFunc : Addr w}
    {params : FunchookParams w} {answer : AllocAnswer w} {r : PrepareResult w}
    (h : funchookPrepareInternal P fh s targetFunc params answer = some r)
    {page : FunchookPage w} (hpage : page ∈ r.fh.pageList) :
    (∃ page₀ ∈ fh.pageList, page₀.addr = page.addr ∧ page₀.prot = page.prot) ∨
      answer.alloc = .ok page.addr ∧ page.prot = .readWrite := by
  rcases prepare_cases h with href | ⟨⟨p⟩⟩
  · exact Or.inl ⟨page, href.pageList ▸ hpage, rfl, rfl⟩
  · rw [p.result] at hpage
    have hadded : page ∈ addEntry p.pages p.idx p.entry := hpage
    obtain ⟨i, hi⟩ := List.mem_iff_getElem?.mp hadded
    rw [getElem?_addEntry] at hi
    obtain ⟨page₀, hpage₀, heq⟩ := Option.map_eq_some_iff.mp hi
    have hsame : page₀.addr = page.addr ∧ page₀.prot = page.prot := by
      rw [← heq]
      split <;> exact ⟨rfl, rfl⟩
    rcases foundPage_prot p.found (List.mem_of_getElem? hpage₀) with hmem | ⟨halloc, hprot⟩
    · exact Or.inl ⟨page₀, hmem, hsame⟩
    · exact Or.inr ⟨hsame.1 ▸ halloc, hsame.2 ▸ hprot⟩

/-- An entry after a prepare was there before, or has just been built. -/
theorem prepare_entries_made {fh : FunchookT w} {s : World w} {targetFunc : Addr w}
    {params : FunchookParams w} {answer : AllocAnswer w} {r : PrepareResult w}
    (h : funchookPrepareInternal P fh s targetFunc params answer = some r)
    {e : FunchookEntry w} (he : e ∈ r.fh.entries) :
    e ∈ fh.entries ∨ ∃ slot, EntryMade P s targetFunc params slot e := by
  rcases prepare_cases h with href | ⟨⟨p⟩⟩
  · rw [FunchookT.entries, href.pageList] at he
    exact Or.inl he
  · rw [p.result] at he
    rcases mem_addEntry he with rfl | he
    · exact Or.inr ⟨_, p.made⟩
    · exact Or.inl (p.found.entries_eq ▸ he)

section Prepare

variable {st : ProtState w} (hinv : ProtInv P st) {targetFunc : Addr w} {params : FunchookParams w}
  {answer : AllocAnswer w} {r : PrepareResult w} (hfresh : answer.Fresh P st.world)
  (hcode : CodeApart P st.toHandleState targetFunc params)
  (h : funchookPrepareInternal P st.fh st.world targetFunc params answer = some r)

include hinv hcode h

/-- The code of every entry after a prepare was mapped before it, outside the pages. -/
theorem prepare_code {e : FunchookEntry w} (he : e ∈ r.fh.entries) {a : Addr w}
    (ha : P.TargetByte e a ∨ OnCodePages P e.targetFunc (P.patchCodeByteSize e) a) :
    st.world.mapped a = true ∧ ∀ page ∈ st.fh.pageList, ¬ InRange page.addr P.pageSize a := by
  rcases prepare_entries_made h he with hold | ⟨slot, hmade⟩
  · exact hinv.code e hold a ha
  · exact hcode slot e hmade a ha

include hfresh

/-- An entry is an old one, or the handle is not installed and memory holds its saved code. -/
theorem prepare_new {e : FunchookEntry w} (he : e ∈ r.fh.entries) :
    e ∈ st.fh.entries ∨ st.fh.installed = false ∧ HoldsSaved P st.world.bytes e := by
  rcases prepare_entries hfresh h he with hold | ⟨hnot, hsaved⟩
  · exact Or.inl hold
  · exact Or.inr ⟨hnot, fun a ha => hsaved a (prepare_code hinv hcode h he (Or.inl ha)).1 ha⟩

theorem prepare_clean (hnot : st.fh.installed = false) {e : FunchookEntry w}
    (he : e ∈ r.fh.entries) : HoldsSaved P st.world.bytes e := by
  rcases prepare_new hinv hfresh hcode h he with hold | ⟨-, hsaved⟩
  · exact hinv.clean hnot e hold
  · exact hsaved

theorem prepare_target_same {e : FunchookEntry w} (he : e ∈ r.fh.entries) {a : Addr w}
    (ha : P.TargetByte e a) : r.world.bytes a = st.world.bytes a := by
  obtain ⟨hmapped, hout⟩ := prepare_code hinv hcode h he (Or.inl ha)
  exact (prepare_frame hfresh h hmapped hout).1

theorem protInv_prepare (flag : Bool) :
    ProtInv P ⟨⟨r.fh, r.world, flag⟩, mappedAccess st.world r.world st.access⟩ := by
  obtain ⟨hpages, -⟩ := pagesInv_prepare hinv.pages hfresh h flag
  have hinst := prepare_installed h
  have hnew := fun {e} (he : e ∈ r.fh.entries) => prepare_new hinv hfresh hcode h he
  have hclean := fun hnot {e} (he : e ∈ r.fh.entries) => prepare_clean hinv hfresh hcode h hnot he
  have hsame : ∀ {e}, e ∈ r.fh.entries → ∀ a, P.TargetByte e a →
      r.world.bytes a = st.world.bytes a :=
    fun he _ ha => prepare_target_same hinv hfresh hcode h he ha
  refine ⟨hpages, fun e he a ha => ?_, fun a page hpage ha => ?_, fun e he e' he' a ha ha' => ?_,
    fun e he a ha => ?_, fun hnot page hpage => ?_, fun hnot e he => ?_,
    fun page hpage hprot e he => ?_⟩
  · obtain ⟨hmapped, hout⟩ := prepare_code hinv hcode h he ha
    refine ⟨(prepare_frame hfresh h hmapped hout).2, fun page hpage hin => ?_⟩
    rcases prepare_pageList h hpage with ⟨page₀, hpage₀, haddr⟩ | halloc
    · exact hout page₀ hpage₀ (haddr ▸ hin)
    · rw [hfresh _ halloc a hin] at hmapped
      cases hmapped
  · show mappedAccess st.world r.world st.access a = page.prot.access
    have hmapped : r.world.mapped a = true := hpages.mapped page hpage a ha
    rcases prepare_prot h hpage with ⟨page₀, hpage₀, haddr, hprot⟩ | ⟨halloc, hprot⟩
    · have hin : InRange page₀.addr P.pageSize a := haddr ▸ ha
      rw [mappedAccess, hinv.pages.mapped page₀ hpage₀ a hin, hinv.agrees a page₀ hpage₀ hin, hprot]
      simp
    · rw [mappedAccess, hmapped, hfresh _ halloc a ha, hprot]
      rfl
  · by_cases hboth : e ∈ st.fh.entries ∧ e' ∈ st.fh.entries
    · exact hinv.saved e hboth.1 e' hboth.2 a ha ha'
    · have hnot : st.fh.installed = false := by
        rcases hnew he with hold | ⟨hnot, -⟩
        · exact (hnew he').elim (fun hold' => absurd ⟨hold, hold'⟩ hboth) And.left
        · exact hnot
      exact (hclean hnot he a ha).trans (hclean hnot he' a ha').symm
  · rcases hnew he with hold | ⟨-, hsaved⟩
    · exact hinv.isSaved e hold a ha
    · rw [hsaved a ha]
      rfl
  · have hnot' : st.fh.installed = false := hinst ▸ hnot
    rcases prepare_prot h hpage with ⟨page₀, hpage₀, -, hprot⟩ | ⟨-, hprot⟩
    · exact hprot ▸ hinv.writable hnot' page₀ hpage₀
    · exact hprot
  · exact holdsSaved_of_same (hclean (hinst ▸ hnot) he) (hsame he)
  · have hmem : e ∈ r.fh.entries := List.mem_flatMap.mpr ⟨page, hpage, he⟩
    refine holdsSaved_of_same ?_ (hsame hmem)
    cases hinst' : st.fh.installed with
    | false => exact hclean hinst' hmem
    | true =>
      rcases prepare_cases h with href | ⟨⟨p⟩⟩
      · have hpage' : page ∈ r.fh.pageList := hpage
        exact hinv.restored page (href.pageList ▸ hpage') hprot e he
      · rw [p.not_installed] at hinst'
        cases hinst'

end Prepare

/-! ## Install and uninstall -/

/-- What the invariant needs of a call that keeps the contents of the pages and maps nothing. -/
theorem protInv_of_contents {st : ProtState w} (hinv : ProtInv P st) {fh : FunchookT w}
    {s : World w} {access : Addr w → Access} {flag : Bool}
    (hpages : PagesInv P ⟨fh, s, flag⟩)
    (hc : pageContents fh.pageList = pageContents st.fh.pageList)
    (hm : s.mapped = st.world.mapped) (hagrees : ∀ a, AccessAgrees P fh.pageList access a)
    (hwritable : fh.installed = false → ∀ page ∈ fh.pageList, page.prot = .readWrite)
    (hclean : fh.installed = false → ∀ e ∈ fh.entries, HoldsSaved P s.bytes e)
    (hrestored : ∀ page ∈ fh.pageList, page.prot = .readWrite →
      ∀ e ∈ page.entries, HoldsSaved P s.bytes e) : ProtInv P ⟨⟨fh, s, flag⟩, access⟩ := by
  have hentries : fh.entries = st.fh.entries := flatMap_entries_eq hc
  refine ⟨hpages, fun e he a ha => ?_, hagrees, fun e he e' he' => ?_, fun e he => ?_, hwritable,
    hclean, hrestored⟩
  · obtain ⟨hmapped, hout⟩ := hinv.code e (hentries ▸ he) a ha
    refine ⟨hm ▸ hmapped, fun page hpage hin => ?_⟩
    obtain ⟨page₀, hpage₀, haddr⟩ := mem_pageList_of_contents hc hpage
    exact hout page₀ hpage₀ (haddr ▸ hin)
  · exact hinv.saved e (hentries ▸ he) e' (hentries ▸ he')
  · exact hinv.isSaved e (hentries ▸ he)

theorem mappedAccess_same {s s' : World w} (hm : s'.mapped = s.mapped)
    (access : Addr w → Access) : mappedAccess s s' access = access := by
  funext a
  rw [mappedAccess, hm]
  simp

theorem ProtInv.offCodePages {st : ProtState w} (hinv : ProtInv P st) {page : FunchookPage w}
    (hpage : page ∈ st.fh.pageList) {a : Addr w} (ha : InRange page.addr P.pageSize a) :
    OffCodePages P st.fh.pageList a := by
  intro q hq e he hon
  have hmem : e ∈ st.fh.entries := List.mem_flatMap.mpr ⟨q, hq, he⟩
  exact (hinv.code e hmem a (Or.inr hon)).2 page hpage ha

theorem ProtInv.targetsOutside {st : ProtState w} (hinv : ProtInv P st) :
    TargetsOutside P st.fh :=
  fun e he page hpage a ha => (hinv.code e he a (Or.inl ha)).2 page hpage

/-- An install whose first call fails changes neither code nor pages. -/
theorem install_first_fails (pages : List (FunchookPage w)) (m : Mem w) {os : List OsAnswer}
    (h : (nextAnswer os).1 ≠ .ok) : (installReach pages os).done = [] ∧
      (installPages P pages m os).pageList = pages := by
  cases pages with
  | nil => exact ⟨rfl, rfl⟩
  | cons page pages =>
    rcases hprotect : nextAnswer os with ⟨_ | message, os₁⟩
    · rw [hprotect] at h
      exact absurd rfl h
    · simp [installReach, installPages, hprotect]

theorem install_pageList {fh : FunchookT w} (s : World w) (os : List OsAnswer)
    (h : fh.installed = false) : (funchookInstallInternal P fh s os).fh.pageList =
      (installPages P fh.pageList s.bytes os).pageList := by
  unfold funchookInstallInternal
  rw [if_neg (by rw [h]; decide)]
  dsimp only
  split <;> rfl

theorem uninstall_pageList {fh : FunchookT w} (s : World w) (os : List OsAnswer)
    (h : fh.installed = true) : (funchookUninstallInternal P fh s os).fh.pageList =
      (uninstallPages P fh.pageList s.bytes os none).1.pageList := by
  unfold funchookUninstallInternal
  rw [if_pos h]
  dsimp only
  generalize uninstallPages P fh.pageList s.bytes os none = r
  obtain ⟨r, _ | note⟩ := r
  all_goals
    dsimp only
    split <;> rfl

theorem protInv_install {st : ProtState w} (hinv : ProtInv P st) {os : List OsAnswer}
    (hcond : KeepsProtection P st (.install os)) (prot : Access) {flag : Bool}
    (hpages : PagesInv P ⟨(funchookInstallInternal P st.fh st.world os).fh,
      (funchookInstallInternal P st.fh st.world os).world, flag⟩) :
    ProtInv P ⟨⟨(funchookInstallInternal P st.fh st.world os).fh,
      (funchookInstallInternal P st.fh st.world os).world, flag⟩,
      applyMprotects ((Call.install os).mprotects P prot st.fh) st.access⟩ := by
  unfold Call.mprotects
  dsimp only
  cases hinst : st.fh.installed with
  | true =>
    rw [install_installed st.fh st.world os hinst] at hpages ⊢
    exact protInv_of_contents hinv hpages rfl rfl hinv.agrees hinv.writable hinv.clean
      hinv.restored
  | false =>
    obtain ⟨hb, hm, hc, hcase⟩ := install_spec (P := P) st.fh st.world os hinst
    have hlist := install_pageList (P := P) st.world os hinst
    have herror := (installPages_reach (P := P) st.fh.pageList st.world.bytes os).2.1
    have hagrees : ∀ a, AccessAgrees P (funchookInstallInternal P st.fh st.world os).fh.pageList
        (applyMprotects (installMprotects P prot st.fh.pageList os) st.access) a := by
      intro a page hpage ha
      obtain ⟨page₀, hpage₀, haddr⟩ := mem_pageList_of_contents hc hpage
      rw [hlist] at hpage
      exact (installPages_agree prot (hinv.offCodePages hpage₀ (haddr ▸ ha))
        (List.pairwise_map.mp hinv.pages.apart) st.world.bytes os (hinv.agrees a)).2 page hpage ha
    rw [if_neg Bool.false_ne_true]
    rcases hcase with ⟨hfailed, -, hnot⟩ | ⟨hok, -, hset⟩
    · have hfirst : (nextAnswer os).1 ≠ .ok := by
        rcases hcond with h | h | h
        · rw [hinst] at h
          cases h
        · exact h
        · rw [hfailed] at h
          cases h
      obtain ⟨hdone, hsame⟩ := install_first_fails (P := P) st.fh.pageList st.world.bytes hfirst
      rw [hsame] at hlist
      have hbytes : (funchookInstallInternal P st.fh st.world os).world.bytes = st.world.bytes := by
        rw [hb, hdone]
        rfl
      refine protInv_of_contents hinv hpages hc hm hagrees (fun _ => ?_) (fun _ => ?_) ?_
      · rw [hlist]
        exact hinv.writable hinst
      · rw [FunchookT.entries, hlist, hbytes]
        exact hinv.clean hinst
      · rw [hlist, hbytes]
        exact hinv.restored
    · have hnone : (installPages P st.fh.pageList st.world.bytes os).error = none := by
        rw [hok] at herror
        exact Option.not_isSome_iff_eq_none.mp (by rw [herror]; decide)
      have hexec := installPages_readExec hnone
      rw [← hlist] at hexec
      refine protInv_of_contents hinv hpages hc hm hagrees (fun hnot => ?_) (fun hnot => ?_)
        (fun page hpage hprot => ?_)
      · rw [hset] at hnot
        cases hnot
      · rw [hset] at hnot
        cases hnot
      · rw [hexec page hpage] at hprot
        cases hprot

/-- Writing saved code back: an entry that is written, or held its saved code, holds it after. -/
theorem ProtInv.restore {st : ProtState w} (hinv : ProtInv P st) {done : List (FunchookEntry w)}
    (hdone : ∀ e ∈ done, e ∈ st.fh.entries) {e : FunchookEntry w} (he : e ∈ st.fh.entries)
    (hheld : e ∈ done ∨ HoldsSaved P st.world.bytes e) :
    HoldsSaved P (writeAll (done.map P.oldPatch) st.world.bytes) e := by
  intro a ha
  obtain ⟨b, hb⟩ := Option.isSome_iff_exists.mp (hinv.isSaved e he a ha)
  rw [hb]
  refine congrArg some (Eq.symm ?_)
  by_cases hcov : ∃ e' ∈ done, P.TargetByte e' a
  · obtain ⟨e', he', ha'⟩ := hcov
    refine writeAll_oldPatch_original (fun e₁ he₁ ha₁ => ?_) he' ha'
    rw [hinv.saved e₁ (hdone e₁ he₁) e he a ha₁ ha, hb]
  · rw [writeAll_oldPatch_frame fun e' he' ha' => hcov ⟨e', he', ha'⟩]
    rcases hheld with hmem | hheld
    · exact absurd ⟨e, hmem, ha⟩ hcov
    · exact Option.some.inj ((hheld a ha).symm.trans hb)

theorem protInv_uninstall {st : ProtState w} (hinv : ProtInv P st) {os : List OsAnswer}
    (hcond : KeepsProtection P st (.uninstall os)) (prot : Access) {flag : Bool}
    (hpages : PagesInv P ⟨(funchookUninstallInternal P st.fh st.world os).fh,
      (funchookUninstallInternal P st.fh st.world os).world, flag⟩) :
    ProtInv P ⟨⟨(funchookUninstallInternal P st.fh st.world os).fh,
      (funchookUninstallInternal P st.fh st.world os).world, flag⟩,
      applyMprotects ((Call.uninstall os).mprotects P prot st.fh) st.access⟩ := by
  unfold Call.mprotects
  dsimp only
  cases hinst : st.fh.installed with
  | false =>
    rw [uninstall_not_installed st.fh st.world os hinst] at hpages ⊢
    exact protInv_of_contents hinv hpages rfl rfl hinv.agrees hinv.writable hinv.clean
      hinv.restored
  | true =>
    obtain ⟨hb, hm, hc, hcase⟩ := uninstall_spec (P := P) st.fh st.world os hinst
    have hlist := uninstall_pageList (P := P) st.world os hinst
    have hentries : (funchookUninstallInternal P st.fh st.world os).fh.entries = st.fh.entries :=
      flatMap_entries_eq hc
    have hagrees : ∀ a, AccessAgrees P (funchookUninstallInternal P st.fh st.world os).fh.pageList
        (applyMprotects (uninstallMprotects P prot st.fh.pageList os) st.access) a := by
      intro a page hpage ha
      obtain ⟨page₀, hpage₀, haddr⟩ := mem_pageList_of_contents hc hpage
      rw [hlist] at hpage
      exact (uninstallPages_agree prot (hinv.offCodePages hpage₀ (haddr ▸ ha))
        (List.pairwise_map.mp hinv.pages.apart) st.world.bytes os none (hinv.agrees a)).2 page
          hpage ha
    have hrestore : ∀ e ∈ st.fh.entries, e ∈ (uninstallReach st.fh.pageList os).done ∨
        HoldsSaved P st.world.bytes e →
          HoldsSaved P (funchookUninstallInternal P st.fh st.world os).world.bytes e := by
      intro e he hheld
      rw [hb]
      exact hinv.restore (fun e he => (uninstallReach_prefix_entries _ _).subset he) he hheld
    rw [if_pos rfl]
    refine protInv_of_contents hinv hpages hc hm hagrees (fun hnot => ?_) (fun hnot e he => ?_)
      (fun page hpage hprot e he => ?_)
    · rcases hcase with ⟨-, -, hset⟩ | ⟨hok, -, -⟩
      · rw [hset] at hnot
        cases hnot
      · rw [hlist]
        refine uninstallPages_readWrite hok ?_
        rcases hcond with h | h | h
        · rw [hinst] at h
          cases h
        · rw [hok] at h
          cases h
        · exact h
    · rcases hcase with ⟨-, -, hset⟩ | ⟨hok, -, -⟩
      · rw [hset] at hnot
        cases hnot
      · rw [hentries] at he
        refine hrestore e he (Or.inl ?_)
        rw [uninstallReach_all hok]
        exact he
    · have hmem : e ∈ st.fh.entries := hentries ▸ List.mem_flatMap.mpr ⟨page, hpage, he⟩
      rw [hlist] at hpage
      refine hrestore e hmem ?_
      rcases uninstallPages_writable hpage hprot with hold | hdone
      · exact Or.inr (hinv.restored page hold hprot e he)
      · exact Or.inl (hdone e he)

/-- **Step.** Every call that meets the condition keeps the invariant. -/
theorem protInv_step {st st' : ProtState w} {c : Call w} (hinv : ProtInv P st)
    (hcond : KeepsProtection P st c) (hstep : ProtStep P st c st') : ProtInv P st' := by
  obtain ⟨hhandle, prot, haccess⟩ := hstep
  obtain ⟨hpages, -⟩ := pagesInv_step hinv.pages hinv.targetsOutside hhandle
  obtain ⟨hfresh, hcall⟩ := hhandle
  obtain ⟨r, hr, hst'⟩ := Option.map_eq_some_iff.mp hcall
  obtain ⟨st'', access⟩ := st'
  dsimp only at hst' hpages haccess ⊢
  subst hst'
  subst haccess
  cases c with
  | prepare targetFunc hookFunc answer =>
    obtain ⟨q, hq, rfl⟩ := Option.map_eq_some_iff.mp hr
    exact protInv_prepare hinv hfresh hcond hq _
  | prepareWithParams targetFunc params answer =>
    obtain ⟨q, hq, rfl⟩ := Option.map_eq_some_iff.mp hr
    exact protInv_prepare hinv hfresh hcond hq _
  | install os =>
    cases hr
    have hm : (funchookInstallInternal P st.fh st.world os).world.mapped = st.world.mapped := by
      unfold funchookInstallInternal
      split
      · rfl
      · dsimp only
        split <;> rfl
    rw [mappedAccess_same hm]
    exact protInv_install hinv hcond prot hpages
  | uninstall os =>
    cases hr
    have hm : (funchookUninstallInternal P st.fh st.world os).world.mapped = st.world.mapped := by
      unfold funchookUninstallInternal
      split
      · dsimp only
        split <;> rfl
      · rfl
    rw [mappedAccess_same hm]
    exact protInv_uninstall hinv hcond prot hpages

/-- **The protection follows the flag.** In every run whose calls meet the condition, in every state
reached, every page is writable while `installed` is 0, and every page with an entry whose jump is
present is executable while it is 1. -/
theorem protection_follows_flag {s₀ : World w} {access₀ : Addr w → Access} {st : ProtState w}
    (hrun : Run (ProtStep P) (KeepsProtection P) (.start s₀ access₀) st) :
    ProtectionFollowsFlag P st := by
  refine ProtInv.followsFlag (hrun.invariant (protInv_start P s₀ access₀) ?_)
  intro st₁ c st₂ hinv hcond hstep
  exact protInv_step hinv hcond hstep

/-! ## Sample runs -/

/-- A call in a process that lets code be writable and executable at once. -/
def ProtState.stepRwx (P : Platform w) (st : ProtState w) (c : Call w) : Option (ProtState w) :=
  (st.toHandleState.step P c).map fun st' =>
    ⟨st', applyMprotects (c.mprotects P ⟨true, true⟩ st.fh)
      (mappedAccess st.world st'.world st.access)⟩

theorem protStep_of_stepRwx {st st' : ProtState w} {c : Call w} (hfresh : c.Fresh P st.world)
    (h : st.stepRwx P c = some st') : ProtStep P st c st' := by
  obtain ⟨st₁, hstep, rfl⟩ := Option.map_eq_some_iff.mp h
  exact ⟨⟨hfresh, hstep⟩, ⟨true, true⟩, rfl⟩

def sampleProtStart : ProtState 64 := .start X86.sampleWorld fun _ => ⟨false, true⟩

def sampleProtPrepare : Call 64 := .prepare 0x401000 0x402000 ⟨.ok 0x500000, .ok⟩

def sampleProtPrepared : ProtState 64 :=
  (sampleProtStart.stepRwx samplePlatform sampleProtPrepare).get (by decide +kernel)

theorem sampleProt_codeApart :
    KeepsProtection samplePlatform sampleProtStart sampleProtPrepare := by
  have hpages : ∀ len : Fin 21, codePages samplePlatform (0x401000 : Addr 64) len.val =
      (0x401000, if len.val = 0 then 0 else 4096) := by decide +kernel
  intro slot e hmade a ha
  obtain ⟨disp, trampoline, s, hbuilt, heq⟩ := hmade
  have htarget : e.targetFunc = 0x401000 := by
    rw [heq]
    exact preparedEntry_targetFunc ..
  have hlen : samplePlatform.patchCodeByteSize e < 21 := by
    rw [heq]
    exact Nat.lt_succ_of_le (Nat.mul_le_mul_right _ (preparedEntry_patchCodeSize hbuilt))
  have hin : InRange (0x401000 : Addr 64) 4096 a := by
    rw [Platform.TargetByte, htarget] at ha
    rcases ha with ha | ha
    · exact inRange_mono ha (by omega)
    · have hin : InRange (codePages samplePlatform 0x401000 (samplePlatform.patchCodeByteSize e)).1
          (codePages samplePlatform 0x401000 (samplePlatform.patchCodeByteSize e)).2 a := ha
      rw [hpages ⟨_, hlen⟩] at hin
      refine inRange_mono hin ?_
      dsimp only
      split <;> omega
  refine ⟨decide_eq_true ?_, fun page hpage => by cases hpage⟩
  have hlt : (a - 0x401000).toNat < 4096 := hin
  show (a - 0x400000).toNat < 0x4000
  bv_omega

theorem sampleProt_run {cond : ProtState 64 → Call 64 → Prop}
    (h : cond sampleProtStart sampleProtPrepare) :
    Run (ProtStep samplePlatform) cond sampleProtStart sampleProtPrepared :=
  .call .start sampleProtPrepare h (protStep_of_stepRwx sample_fresh (Option.some_get _).symm)

def sampleProtInstalled : ProtState 64 :=
  (sampleProtPrepared.stepRwx samplePlatform (.install [])).get (by decide +kernel)

theorem protection_follows_flag_sample :
    sampleProtInstalled.fh.installed = true ∧
      ProtectionFollowsFlag samplePlatform sampleProtInstalled := by
  have hcond : KeepsProtection samplePlatform sampleProtPrepared (.install []) :=
    Or.inr (Or.inr (installReach_ok _ fun a ha => by cases ha))
  have hrun : Run (ProtStep samplePlatform) (KeepsProtection samplePlatform) sampleProtStart
      sampleProtInstalled := (sampleProt_run sampleProt_codeApart).call (.install []) hcond
    (protStep_of_stepRwx trivial (Option.some_get _).symm)
  exact ⟨by decide +kernel, protection_follows_flag hrun⟩

/-- An install that fails after its first `funchook_page_protect`. -/
def sampleProtFailed : ProtState 64 :=
  (sampleProtPrepared.stepRwx samplePlatform (.install [.ok, .fail "mprotect"])).get
    (by decide +kernel)

/-- It leaves its page executable with `installed` 0, and the next prepare fills an entry there. -/
theorem protection_lost :
    Run (ProtStep samplePlatform) (fun _ _ => True) sampleProtStart sampleProtFailed ∧
      ¬ ProtectionFollowsFlag samplePlatform sampleProtFailed ∧
      (funchookPrepare samplePlatform sampleProtFailed.fh sampleProtFailed.world 0x401100 0x402100
        ⟨.ok 0x600000, .ok⟩).isNone = true := by
  refine ⟨(sampleProt_run trivial).call (.install [.ok, .fail "mprotect"]) trivial
    (protStep_of_stepRwx trivial (Option.some_get _).symm), fun h => ?_, by decide +kernel⟩
  have hpage : sampleProtFailed.fh.pageList.map FunchookPage.addr = [0x500000] := by decide +kernel
  obtain ⟨page, hmem, haddr⟩ := List.mem_map.mp
    (show (0x500000 : Addr 64) ∈ sampleProtFailed.fh.pageList.map FunchookPage.addr by
      rw [hpage]; exact List.mem_singleton_self _)
  have hwrite := h.writable (by decide +kernel) page hmem 0x500000
    (by rw [haddr]; decide +kernel)
  revert hwrite
  decide +kernel

end Funchook
