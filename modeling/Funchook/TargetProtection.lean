import Funchook.MemoryProtection
import Funchook.InstallFailure
import Funchook.PageProtection
import Mathlib.Logic.Relation

/-!
# The protection of the pages of the targets

The loops of install and uninstall with the functions that change a protection, for both systems.
They take the same way through the pages and entries as the loops that write the patches. On Unix
the pages of a target end up readable and executable, whatever they were; on Windows they get back
the protection that the first page of the patch had, which for a patch over two pages need not be
that of the second.
-/

namespace Funchook

open ByteMemory Blocks

open Relation (ReflTransGen)

variable {w : ℕ} {σ π : Type}

/-! ## The loops -/

section Loops

variable (ops : ProtectOps w σ) (P : Platform w)

/-- The inner loop shared by install and uninstall. -/
def patchProtections : List (FunchookEntry w) → σ → Option Failure × σ
  | [], s => (none, s)
  | e :: es, s =>
    match ops.funchookUnprotectBegin e.targetFunc (BitVec.ofNat w (P.patchCodeByteSize e)) s with
    | (.error f, s) => (some f, s)
    | (.ok mstate, s) =>
      match ops.funchookUnprotectEnd mstate s with
      | (some f, s) => (some f, s)
      | (none, s) => patchProtections es s

/-- The page loop of install. -/
def installProtections : List (FunchookPage w) → σ → Option Failure × σ
  | [], s => (none, s)
  | page :: pages, s =>
    match ops.funchookPageProtect page.addr s with
    | (some f, s) => (some f, s)
    | (none, s) =>
      match patchProtections ops P page.entries s with
      | (some f, s) => (some f, s)
      | (none, s) => installProtections pages s

/-- The page loop of uninstall, which ignores the result of `funchook_page_unprotect`. -/
def uninstallProtections : List (FunchookPage w) → σ → Option Failure × σ
  | [], s => (none, s)
  | page :: pages, s =>
    match patchProtections ops P page.entries s with
    | (some f, s) => (some f, s)
    | (none, s) => uninstallProtections pages (ops.funchookPageUnprotect page.addr s).2

/-- What a function returns when its loop has ended so. -/
def loopResult : Option Failure × σ → ErrorCode × σ
  | (some f, s) => (f.code, s)
  | (none, s) => (errorSuccess, s)

/-- `funchook_install_internal` -/
def funchookInstallProtect (fh : FunchookT w) (s : σ) : ErrorCode × σ :=
  if fh.installed then (errorAlreadyInstalled, s)
  else loopResult (installProtections ops P fh.pageList s)

/-- `funchook_uninstall_internal` -/
def funchookUninstallProtect (fh : FunchookT w) (s : σ) : ErrorCode × σ :=
  if fh.installed then loopResult (uninstallProtections ops P fh.pageList s)
  else (errorNotInstalled, s)

/-- An install or an uninstall of the handle returns 0. -/
def InstallOrUninstall (fh : FunchookT w) (s s' : σ) : Prop :=
  funchookInstallProtect ops P fh s = (errorSuccess, s') ∨
    funchookUninstallProtect ops P fh s = (errorSuccess, s')

theorem installOrUninstall_install {ops : ProtectOps w σ} {P : Platform w} {fh : FunchookT w}
    {s : σ} (h : (funchookInstallProtect ops P fh s).1 = errorSuccess) :
    InstallOrUninstall ops P fh s (funchookInstallProtect ops P fh s).2 :=
  .inl (Prod.ext h rfl)

end Loops

/-! ## The same way as the loops that write the patches -/

section Refinement

variable (ops : ProtectOps w σ) (P : Platform w)

/-- The outcome of a call as the loops over the memory see it. -/
def osAnswer : Option Failure → OsAnswer
  | none => .ok
  | some f => .fail f.message

theorem patchProtections_refines (code : FunchookEntry w → Patch w) (es : List (FunchookEntry w))
    (s : σ) : ∃ os, ∀ (m : Mem w) (rest : List OsAnswer),
      (patchEntries code es m (os ++ rest)).error =
          (patchProtections ops P es s).1.map Failure.message ∧
        (patchEntries code es m (os ++ rest)).answers = rest := by
  induction es generalizing s with
  | nil => exact ⟨[], fun m rest => ⟨rfl, rfl⟩⟩
  | cons e es ih =>
    rcases hbegin : ops.funchookUnprotectBegin e.targetFunc
      (BitVec.ofNat w (P.patchCodeByteSize e)) s with ⟨f | mstate, s₁⟩
    · refine ⟨[.fail f.message], fun m rest => ?_⟩
      simp [patchEntries, patchProtections, hbegin, nextAnswer]
    · rcases hend : ops.funchookUnprotectEnd mstate s₁ with ⟨_ | f, s₂⟩
      · obtain ⟨os, hos⟩ := ih s₂
        refine ⟨.ok :: .ok :: os, fun m rest => ?_⟩
        simpa [patchEntries, patchProtections, hbegin, hend, nextAnswer] using hos _ rest
      · refine ⟨[.ok, .fail f.message], fun m rest => ?_⟩
        simp [patchEntries, patchProtections, hbegin, hend, nextAnswer]

theorem installProtections_refines (pages : List (FunchookPage w)) (s : σ) :
    ∃ os, ∀ (m : Mem w) (rest : List OsAnswer),
      (installPages P pages m (os ++ rest)).error =
          (installProtections ops P pages s).1.map Failure.message ∧
        (installPages P pages m (os ++ rest)).answers = rest := by
  induction pages generalizing s with
  | nil => exact ⟨[], fun m rest => ⟨rfl, rfl⟩⟩
  | cons page pages ih =>
    rcases hprotect : ops.funchookPageProtect page.addr s with ⟨_ | f, s₁⟩
    · obtain ⟨os, hos⟩ := patchProtections_refines ops P P.newPatch page.entries s₁
      rcases hentries : patchProtections ops P page.entries s₁ with ⟨_ | f, s₂⟩
      · obtain ⟨os', hos'⟩ := ih s₂
        refine ⟨.ok :: (os ++ os'), fun m rest => ?_⟩
        obtain ⟨herror, hanswers⟩ := hos m (os' ++ rest)
        simp only [hentries, Option.map_none] at herror
        simp only [installPages, installProtections, hprotect, hentries, nextAnswer,
          List.cons_append, List.append_assoc, herror, hanswers]
        exact hos' _ rest
      · refine ⟨.ok :: os, fun m rest => ?_⟩
        obtain ⟨herror, hanswers⟩ := hos m rest
        simp only [hentries, Option.map_some] at herror
        simp only [installPages, installProtections, hprotect, hentries, nextAnswer,
          List.cons_append, herror, hanswers, Option.map_some]
        exact ⟨trivial, trivial⟩
    · refine ⟨[.fail f.message], fun m rest => ?_⟩
      simp [installPages, installProtections, hprotect, nextAnswer]

theorem uninstallProtections_refines (pages : List (FunchookPage w)) (s : σ) :
    ∃ os, ∀ (m : Mem w) (rest : List OsAnswer) (note : Option String),
      (uninstallPages P pages m (os ++ rest) note).1.error =
          (uninstallProtections ops P pages s).1.map Failure.message ∧
        (uninstallPages P pages m (os ++ rest) note).1.answers = rest := by
  induction pages generalizing s with
  | nil => exact ⟨[], fun m rest note => ⟨rfl, rfl⟩⟩
  | cons page pages ih =>
    obtain ⟨os, hos⟩ := patchProtections_refines ops P P.oldPatch page.entries s
    rcases hentries : patchProtections ops P page.entries s with ⟨_ | f, s₁⟩
    · -- the page loop goes on whatever the call for the page returns
      rcases hunprotect : ops.funchookPageUnprotect page.addr s₁ with ⟨r, s₂⟩
      obtain ⟨os', hos'⟩ := ih s₂
      refine ⟨os ++ osAnswer r :: os', ?_⟩
      intro m rest note
      obtain ⟨herror, hanswers⟩ := hos m (osAnswer r :: os' ++ rest)
      simp only [hentries, Option.map_none] at herror
      rw [List.append_assoc]
      simp only [uninstallPages, uninstallProtections, hentries, hunprotect, herror, hanswers]
      cases r with
      | none => exact hos' _ rest _
      | some f => exact hos' _ rest _
    · refine ⟨os, fun m rest note => ?_⟩
      obtain ⟨herror, hanswers⟩ := hos m rest
      simp only [hentries, Option.map_some] at herror
      simp only [uninstallPages, uninstallProtections, hentries, herror, hanswers,
        Option.map_some]
      exact ⟨trivial, trivial⟩

end Refinement

/-! ## What a successful run does to a byte -/

instance (P : Platform w) (start : Addr w) (len : ℕ) (a : Addr w) :
    Decidable (OnCodePages P start len a) :=
  inferInstanceAs (Decidable (InRange _ _ _))

/-- `kept` is the protection that a pair of `funchook_unprotect_begin` and `funchook_unprotect_end`
leaves on its range: a function of the protections before it and of the first byte. -/
structure ProtectRules (ops : ProtectOps w σ) (P : Platform w) (access : σ → Addr w → π)
    (kept : (Addr w → π) → Addr w → π) : Prop where
  page_frame : ∀ {page s a}, ¬ InRange page P.pageSize a →
    access (ops.funchookPageProtect page s).2 a = access s a ∧
      access (ops.funchookPageUnprotect page s).2 a = access s a
  pair : ∀ {start len s mstate s₁ s₂},
    ops.funchookUnprotectBegin start (BitVec.ofNat w len) s = (.ok mstate, s₁) →
      ops.funchookUnprotectEnd mstate s₁ = (none, s₂) → ∀ a, access s₂ a =
        if OnCodePages P start len a then kept (access s) (codePages P start len).1
        else access s a
  page_code : ∀ {page s f s₁}, ops.funchookPageProtect page s = (some f, s₁) →
    f.code = errorMemoryFunction
  begin_code : ∀ {start len s f s₁}, ops.funchookUnprotectBegin start len s = (.error f, s₁) →
    f.code = errorMemoryFunction
  end_code : ∀ {mstate s f s₁}, ops.funchookUnprotectEnd mstate s = (some f, s₁) →
    f.code = errorMemoryFunction

/-- No page of the list holds `a`. -/
def OffPages (P : Platform w) (pages : List (FunchookPage w)) (a : Addr w) : Prop :=
  ∀ page ∈ pages, ¬ InRange page.addr P.pageSize a

/-- The protections after the calls for one entry. -/
def leave (P : Platform w) (kept : (Addr w → π) → Addr w → π) (e : FunchookEntry w)
    (access : Addr w → π) : Addr w → π := fun a =>
  if OnCodePages P e.targetFunc (P.patchCodeByteSize e) a then
    kept access (codePages P e.targetFunc (P.patchCodeByteSize e)).1
  else access a

section Rules

variable {ops : ProtectOps w σ} {P : Platform w} {access : σ → Addr w → π}
  {kept : (Addr w → π) → Addr w → π} (rules : ProtectRules ops P access kept)
include rules

/-! ### One entry and one page -/

theorem patchProtections_cons {e : FunchookEntry w} {es : List (FunchookEntry w)} {s s' : σ}
    (h : patchProtections ops P (e :: es) s = (none, s')) :
    ∃ s₁, access s₁ = leave P kept e (access s) ∧ patchProtections ops P es s₁ = (none, s') := by
  rcases hbegin : ops.funchookUnprotectBegin e.targetFunc
    (BitVec.ofNat w (P.patchCodeByteSize e)) s with ⟨f | mstate, s₁⟩
  · simp only [patchProtections, hbegin] at h
    cases h
  · rcases hend : ops.funchookUnprotectEnd mstate s₁ with ⟨_ | f, s₂⟩
    · simp only [patchProtections, hbegin, hend] at h
      exact ⟨s₂, funext (rules.pair hbegin hend), h⟩
    · simp only [patchProtections, hbegin, hend] at h
      cases h

theorem installProtections_cons {page : FunchookPage w} {pages : List (FunchookPage w)} {s s' : σ}
    (h : installProtections ops P (page :: pages) s = (none, s')) :
    ∃ s₁ s₂, (∀ a, ¬ InRange page.addr P.pageSize a → access s₁ a = access s a) ∧
      patchProtections ops P page.entries s₁ = (none, s₂) ∧
        installProtections ops P pages s₂ = (none, s') := by
  rcases hprotect : ops.funchookPageProtect page.addr s with ⟨_ | f, s₁⟩
  · rcases hentries : patchProtections ops P page.entries s₁ with ⟨_ | f, s₂⟩
    · simp only [installProtections, hprotect, hentries] at h
      refine ⟨s₁, s₂, ?_, hentries, h⟩
      intro a ha
      have hframe := (rules.page_frame (s := s) ha).1
      rw [hprotect] at hframe
      exact hframe
    · simp only [installProtections, hprotect, hentries] at h
      cases h
  · simp only [installProtections, hprotect] at h
    cases h

theorem uninstallProtections_cons {page : FunchookPage w} {pages : List (FunchookPage w)}
    {s s' : σ} (h : uninstallProtections ops P (page :: pages) s = (none, s')) :
    ∃ s₁ s₂, patchProtections ops P page.entries s = (none, s₁) ∧
      (∀ a, ¬ InRange page.addr P.pageSize a → access s₂ a = access s₁ a) ∧
        uninstallProtections ops P pages s₂ = (none, s') := by
  rcases hentries : patchProtections ops P page.entries s with ⟨_ | f, s₁⟩
  · simp only [uninstallProtections, hentries] at h
    exact ⟨s₁, _, rfl, fun a ha => (rules.page_frame ha).2, h⟩
  · simp only [uninstallProtections, hentries] at h
    cases h

/-! ### What a run keeps -/

/-- **Invariants of the inner loop.** -/
theorem patchProtections_keeps {inv : (Addr w → π) → Prop} {es : List (FunchookEntry w)}
    (hentry : ∀ e ∈ es, ∀ acc, inv acc → inv (leave P kept e acc)) {s s' : σ}
    (h : patchProtections ops P es s = (none, s')) (hinv : inv (access s)) : inv (access s') := by
  induction es generalizing s with
  | nil =>
    cases h
    exact hinv
  | cons e es ih =>
    obtain ⟨s₁, hleave, hrest⟩ := patchProtections_cons rules h
    refine ih (fun e' he' => hentry e' (List.mem_cons_of_mem e he')) hrest ?_
    rw [hleave]
    exact hentry e List.mem_cons_self _ hinv

/-- A run through an entry that establishes the invariant. -/
theorem patchProtections_reaches {inv : (Addr w → π) → Prop} {es : List (FunchookEntry w)}
    (hentry : ∀ e ∈ es, ∀ acc, inv acc → inv (leave P kept e acc)) {e : FunchookEntry w}
    (he : e ∈ es) (hmade : ∀ acc, inv (leave P kept e acc)) {s s' : σ}
    (h : patchProtections ops P es s = (none, s')) : inv (access s') := by
  induction es generalizing s with
  | nil => cases he
  | cons e' es ih =>
    have hrest : ∀ x ∈ es, ∀ acc, inv acc → inv (leave P kept x acc) :=
      fun x hx => hentry x (List.mem_cons_of_mem e' hx)
    obtain ⟨s₁, hleave, hnext⟩ := patchProtections_cons rules h
    rcases List.mem_cons.mp he with rfl | he
    · refine patchProtections_keeps rules hrest hnext ?_
      rw [hleave]
      exact hmade _
    · exact ih hrest he hnext

/-- **Invariants of both page loops**, for what only looks at bytes outside the pages of the
handle, of which `rest` are left. -/
theorem pageLoops_keep (inv : (Addr w → π) → Prop) {pages rest : List (FunchookPage w)}
    (hframe : ∀ acc acc', (∀ a, OffPages P pages a → acc' a = acc a) → inv acc → inv acc')
    (hentry : ∀ e ∈ rest.flatMap FunchookPage.entries, ∀ acc, inv acc → inv (leave P kept e acc))
    (hsub : rest ⊆ pages) {s s' : σ} (h : installProtections ops P rest s = (none, s') ∨
      uninstallProtections ops P rest s = (none, s')) (hinv : inv (access s)) :
    inv (access s') := by
  induction rest generalizing s with
  | nil =>
    rcases h with h | h
    all_goals
      cases h
      exact hinv
  | cons page rest ih =>
    obtain ⟨hpage, hrest⟩ := List.cons_subset.mp hsub
    rw [List.flatMap_cons] at hentry
    have hes : ∀ e ∈ page.entries, ∀ acc, inv acc → inv (leave P kept e acc) :=
      fun e he => hentry e (List.mem_append_left _ he)
    have hes' : ∀ e ∈ rest.flatMap FunchookPage.entries, ∀ acc, inv acc →
        inv (leave P kept e acc) := fun e he => hentry e (List.mem_append_right _ he)
    rcases h with h | h
    · obtain ⟨s₁, s₂, hpageFrame, hentries, hpages⟩ := installProtections_cons rules h
      have h₁ := hframe (access s) (access s₁) (fun a ha => hpageFrame a (ha page hpage)) hinv
      exact ih hes' hrest (.inl hpages) (patchProtections_keeps rules hes hentries h₁)
    · obtain ⟨s₁, s₂, hentries, hpageFrame, hpages⟩ := uninstallProtections_cons rules h
      have h₁ := patchProtections_keeps rules hes hentries hinv
      exact ih hes' hrest (.inr hpages) (hframe _ _ (fun a ha => hpageFrame a (ha page hpage)) h₁)

/-- **Both page loops** past an entry that establishes the invariant. -/
theorem pageLoops_reach (inv : (Addr w → π) → Prop) {pages rest : List (FunchookPage w)}
    (hframe : ∀ acc acc', (∀ a, OffPages P pages a → acc' a = acc a) → inv acc → inv acc')
    (hentry : ∀ e ∈ rest.flatMap FunchookPage.entries, ∀ acc, inv acc → inv (leave P kept e acc))
    (hsub : rest ⊆ pages) {e : FunchookEntry w} (he : e ∈ rest.flatMap FunchookPage.entries)
    (hmade : ∀ acc, inv (leave P kept e acc)) {s s' : σ}
    (h : installProtections ops P rest s = (none, s') ∨
      uninstallProtections ops P rest s = (none, s')) : inv (access s') := by
  induction rest generalizing s with
  | nil => cases he
  | cons page rest ih =>
    obtain ⟨hpage, hrest⟩ := List.cons_subset.mp hsub
    rw [List.flatMap_cons] at hentry he
    have hes : ∀ e ∈ page.entries, ∀ acc, inv acc → inv (leave P kept e acc) :=
      fun e he => hentry e (List.mem_append_left _ he)
    have hes' : ∀ e ∈ rest.flatMap FunchookPage.entries, ∀ acc, inv acc →
        inv (leave P kept e acc) := fun e he => hentry e (List.mem_append_right _ he)
    rcases h with h | h
    · obtain ⟨s₁, s₂, -, hentries, hpages⟩ := installProtections_cons rules h
      rcases List.mem_append.mp he with he | he
      · exact pageLoops_keep rules inv hframe hes' hrest (.inl hpages)
          (patchProtections_reaches rules hes he hmade hentries)
      · exact ih hes' hrest he (.inl hpages)
    · obtain ⟨s₁, s₂, hentries, hpageFrame, hpages⟩ := uninstallProtections_cons rules h
      rcases List.mem_append.mp he with he | he
      · have h₁ := patchProtections_reaches rules hes he hmade hentries
        exact pageLoops_keep rules inv hframe hes' hrest (.inr hpages)
          (hframe _ _ (fun a ha => hpageFrame a (ha page hpage)) h₁)
      · exact ih hes' hrest he (.inr hpages)

/-! ### Return values -/

theorem patchProtections_code {es : List (FunchookEntry w)} {s s' : σ} {f : Failure}
    (h : patchProtections ops P es s = (some f, s')) : f.code = errorMemoryFunction := by
  induction es generalizing s with
  | nil => cases h
  | cons e es ih =>
    rcases hbegin : ops.funchookUnprotectBegin e.targetFunc
      (BitVec.ofNat w (P.patchCodeByteSize e)) s with ⟨f' | mstate, s₁⟩
    · simp only [patchProtections, hbegin] at h
      cases h
      exact rules.begin_code hbegin
    · rcases hend : ops.funchookUnprotectEnd mstate s₁ with ⟨_ | f', s₂⟩
      · simp only [patchProtections, hbegin, hend] at h
        exact ih h
      · simp only [patchProtections, hbegin, hend] at h
        cases h
        exact rules.end_code hend

theorem installProtections_code {pages : List (FunchookPage w)} {s s' : σ} {f : Failure}
    (h : installProtections ops P pages s = (some f, s')) : f.code = errorMemoryFunction := by
  induction pages generalizing s with
  | nil => cases h
  | cons page pages ih =>
    rcases hprotect : ops.funchookPageProtect page.addr s with ⟨_ | f', s₁⟩
    · rcases hentries : patchProtections ops P page.entries s₁ with ⟨_ | f', s₂⟩
      · simp only [installProtections, hprotect, hentries] at h
        exact ih h
      · simp only [installProtections, hprotect, hentries] at h
        cases h
        exact patchProtections_code rules hentries
    · simp only [installProtections, hprotect] at h
      cases h
      exact rules.page_code hprotect

theorem uninstallProtections_code {pages : List (FunchookPage w)} {s s' : σ} {f : Failure}
    (h : uninstallProtections ops P pages s = (some f, s')) : f.code = errorMemoryFunction := by
  induction pages generalizing s with
  | nil => cases h
  | cons page pages ih =>
    rcases hentries : patchProtections ops P page.entries s with ⟨_ | f', s₁⟩
    · simp only [uninstallProtections, hentries] at h
      exact ih h
    · simp only [uninstallProtections, hentries] at h
      cases h
      exact patchProtections_code rules hentries

/-- A call returns 0 only if its loop went through. -/
theorem installOrUninstall_loops {fh : FunchookT w} {s s' : σ}
    (h : InstallOrUninstall ops P fh s s') :
    installProtections ops P fh.pageList s = (none, s') ∨
      uninstallProtections ops P fh.pageList s = (none, s') := by
  have hresult : ∀ r : Option Failure × σ, (∀ f, r.1 = some f → f.code = errorMemoryFunction) →
      loopResult r = (errorSuccess, s') → r = (none, s') := by
    intro r hcode hr
    rcases r with ⟨_ | f, s₁⟩
    · cases hr
      rfl
    · simp only [loopResult, hcode f rfl] at hr
      cases hr
  rcases h with h | h
  · left
    unfold funchookInstallProtect at h
    split at h
    · cases h
    · refine hresult _ (fun f hf => ?_) h
      exact installProtections_code rules (Prod.ext hf rfl)
  · right
    unfold funchookUninstallProtect at h
    split at h
    · refine hresult _ (fun f hf => ?_) h
      exact uninstallProtections_code rules (Prod.ext hf rfl)
    · cases h

/-- **Refinement.** With the outcomes of the same calls as answers, install returns what it
returns over the memory. -/
theorem funchookInstallProtect_refines (fh : FunchookT w) (s : σ) :
    ∃ os, ∀ world : World w, (funchookInstallInternal P fh world os).rv =
      (funchookInstallProtect ops P fh s).1 := by
  obtain ⟨os, hos⟩ := installProtections_refines ops P fh.pageList s
  refine ⟨os, fun world => ?_⟩
  have herror := (hos world.bytes []).1
  rw [List.append_nil] at herror
  unfold funchookInstallInternal funchookInstallProtect
  split
  · rfl
  · rcases hloop : installProtections ops P fh.pageList s with ⟨_ | f, s'⟩
    · rw [hloop] at herror
      simp only [herror, Option.map_none, loopResult]
    · rw [hloop] at herror
      simp only [herror, Option.map_some, loopResult]
      exact (installProtections_code rules hloop).symm

theorem funchookUninstallProtect_refines (fh : FunchookT w) (s : σ) :
    ∃ os, ∀ world : World w, (funchookUninstallInternal P fh world os).rv =
      (funchookUninstallProtect ops P fh s).1 := by
  obtain ⟨os, hos⟩ := uninstallProtections_refines ops P fh.pageList s
  refine ⟨os, fun world => ?_⟩
  have herror := (hos world.bytes [] none).1
  rw [List.append_nil] at herror
  unfold funchookUninstallInternal funchookUninstallProtect
  split
  · rcases hloop : uninstallProtections ops P fh.pageList s with ⟨_ | f, s'⟩
    · rw [hloop] at herror
      simp only [herror, Option.map_none, loopResult]
    · rw [hloop] at herror
      simp only [herror, Option.map_some, loopResult]
      exact (uninstallProtections_code rules hloop).symm
  · rfl

end Rules

/-! ## Both systems keep the rules -/

section Systems

variable {P : Platform w}

theorem protect_access_off {s : ProtectState w π} {addr : Addr w} {size : BitVec w} {prot : π}
    {a : Addr w} (h : ¬ InRange addr size.toNat a) :
    (s.protect addr size prot).access a = s.access a := if_neg h

theorem protect_access_ok {s : ProtectState w π} (hok : s.next.1 = .ok) (addr : Addr w)
    (size : BitVec w) (prot : π) (a : Addr w) : (s.protect addr size prot).access a =
      if InRange addr size.toNat a then prot else s.access a := by
  show (s.call addr size prot).apply s.access a = _
  unfold ProtectCall.apply ProtectState.call
  rw [hok]

theorem toNat_pageSize (hsize : P.pageSize < 2 ^ w) :
    (BitVec.ofNat w P.pageSize).toNat = P.pageSize := by
  rw [BitVec.toNat_ofNat, Nat.mod_eq_of_lt hsize]

/-- A begin that returns 0 has changed its range only. -/
theorem Unix.unprotectBegin_ok {pageSize start : Addr w} {len : BitVec w} {s s₁ : ProtectState w}
    {mstate : MemState w} (h : funchookUnprotectBegin pageSize start len s = (.ok mstate, s₁)) :
    mstate = memState pageSize start len ∧
      ∀ a, ¬ InRange mstate.addr mstate.size.toNat a → s₁.access a = s.access a := by
  have hm := (unprotectBegin_calls pageSize start len s).2 mstate (by rw [h])
  refine ⟨hm, ?_⟩
  intro a ha
  rw [hm] at ha
  rcases hnext : s.next.1 with _ | ⟨err, message, left⟩
  · simp only [funchookUnprotectBegin, hnext] at h
    cases h
    exact protect_access_off ha
  · by_cases hretry : err = eacces ∧ s.prot.exec = true
    · simp only [funchookUnprotectBegin, hnext, if_pos hretry] at h
      split at h
      · cases h
        exact (protect_access_off ha).trans (protect_access_off ha)
      · cases h
    · simp only [funchookUnprotectBegin, hnext, if_neg hretry] at h
      cases h

theorem Unix.unprotectEnd_ok {mstate : MemState w} {s s₁ : ProtectState w}
    (h : funchookUnprotectEnd mstate s = (none, s₁)) :
    s.next.1 = .ok ∧ s₁ = s.mprotect mstate.addr mstate.size protReadExec := by
  refine ⟨?_, (congrArg Prod.snd h).symm⟩
  have hnone := congrArg Prod.fst h
  simp only [funchookUnprotectEnd] at hnone
  split at hnone
  · assumption
  · cases hnone

theorem Windows.unprotectEnd_ok {mstate : MemState w} {s s₁ : ProtectState w}
    (h : funchookUnprotectEnd mstate s = (none, s₁)) :
    s.next.1 = .ok ∧ s₁ = s.protect mstate.addr mstate.size mstate.protect := by
  refine ⟨?_, (congrArg Prod.snd h).symm⟩
  have hnone := congrArg Prod.fst h
  simp only [funchookUnprotectEnd] at hnone
  split at hnone
  · assumption
  · cases hnone

theorem Windows.unprotectBegin_ok {pageSize start : Addr w} {len : BitVec w}
    {s s₁ : ProtectState w} {mstate : MemState w}
    (h : funchookUnprotectBegin pageSize start len s = (.ok mstate, s₁)) :
    mstate = ⟨memState pageSize start len, s.access (memState pageSize start len).addr⟩ ∧
      ∀ a, ¬ InRange mstate.addr mstate.size.toNat a → s₁.access a = s.access a := by
  simp only [funchookUnprotectBegin] at h
  split at h
  · cases h
    exact ⟨rfl, fun a ha => protect_access_off ha⟩
  · cases h

theorem Unix.protectRules (hsize : P.pageSize < 2 ^ w) :
    ProtectRules (Unix.protectOps (BitVec.ofNat w P.pageSize)) P
      (fun s => s.access) (fun _ _ => protReadExec) := by
  constructor
  · intro page s a ha
    rw [← toNat_pageSize hsize] at ha
    exact ⟨protect_access_off ha, protect_access_off ha⟩
  · intro start len s mstate s₁ s₂ hbegin hend a
    obtain ⟨hm, hframe⟩ := unprotectBegin_ok hbegin
    obtain ⟨hok, rfl⟩ := unprotectEnd_ok hend
    subst hm
    refine (protect_access_ok hok _ _ _ a).trans ?_
    show (if OnCodePages P start len a then _ else _) = _
    split
    · rfl
    · rename_i hout
      exact hframe a hout
  · intro page s f s₁ h
    have hfail := congrArg Prod.fst h
    simp only [protectOps, funchookPageProtect, setPageProt] at hfail
    split at hfail
    · cases hfail
    · rw [← Option.some.inj hfail]
  · intro start len s f s₁ h
    simp only [protectOps, funchookUnprotectBegin] at h
    split at h
    · cases h
    · split at h
      · split at h
        · cases h
        · cases h
          rfl
      · cases h
        rfl
  · intro mstate s f s₁ h
    have hfail := congrArg Prod.fst h
    simp only [protectOps, funchookUnprotectEnd] at hfail
    split at hfail
    · cases hfail
    · rw [← Option.some.inj hfail]

theorem Windows.protectRules (hsize : P.pageSize < 2 ^ w) :
    ProtectRules (Windows.protectOps (BitVec.ofNat w P.pageSize)) P
      (fun s => s.access) (fun access first => access first) := by
  constructor
  · intro page s a ha
    rw [← toNat_pageSize hsize] at ha
    exact ⟨protect_access_off ha, protect_access_off ha⟩
  · intro start len s mstate s₁ s₂ hbegin hend a
    obtain ⟨hm, hframe⟩ := unprotectBegin_ok hbegin
    obtain ⟨hok, rfl⟩ := unprotectEnd_ok hend
    subst hm
    refine (protect_access_ok hok _ _ _ a).trans ?_
    show (if OnCodePages P start len a then _ else _) = _
    split
    · rfl
    · rename_i hout
      exact hframe a hout
  · intro page s f s₁ h
    have hfail := congrArg Prod.fst h
    simp only [protectOps, funchookPageProtect, setPageProt] at hfail
    split at hfail
    · cases hfail
    · rw [← Option.some.inj hfail]
  · intro start len s f s₁ h
    simp only [protectOps, funchookUnprotectBegin] at h
    split at h
    · cases h
    · cases h
      rfl
  · intro mstate s f s₁ h
    have hfail := congrArg Prod.fst h
    simp only [protectOps, funchookUnprotectEnd] at hfail
    split at hfail
    · cases hfail
    · rw [← Option.some.inj hfail]

end Systems

/-! ## The pages of the targets -/

section Targets

variable {P : Platform w}

/-- `a` is on a page that holds a byte of the target that install overwrites. -/
def OnTargetPage (P : Platform w) (e : FunchookEntry w) (a : Addr w) : Prop :=
  ∃ t, P.TargetByte e t ∧ a.toNat / P.pageSize = t.toNat / P.pageSize

/-- The first byte of the pages is on them, if any byte is. -/
theorem onCodePages_first {start a : Addr w} {len : ℕ} (h : OnCodePages P start len a) :
    OnCodePages P start len (codePages P start len).1 := by
  show (_ - _ : Addr w).toNat < _
  rw [BitVec.sub_self]
  exact Nat.lt_of_le_of_lt (Nat.zero_le _) h

/-- `b` is the first byte of the pages of a patch, and `a` is on them too: `funchook_unprotect_end`
gives `a` the protection that `b` had. -/
def TakesFrom (P : Platform w) (fh : FunchookT w) (a b : Addr w) : Prop :=
  ∃ e ∈ fh.entries, OnCodePages P e.targetFunc (P.patchCodeByteSize e) a ∧
    b = (codePages P e.targetFunc (P.patchCodeByteSize e)).1

/-- The byte `a`, and every byte that its protection can be taken from, directly or by way of
others, is off the pages of the handle and has the protection of `a`. -/
def OneProtection (P : Platform w) (fh : FunchookT w) (access : Addr w → π) (a : Addr w) : Prop :=
  ∀ b, ReflTransGen (TakesFrom P fh) a b → OffPages P fh.pageList b ∧ access b = access a

theorem OneProtection.takesFrom {fh : FunchookT w} {access : Addr w → π} {a b : Addr w}
    (h : OneProtection P fh access a) (hb : TakesFrom P fh a b) :
    OneProtection P fh access b ∧ access b = access a := by
  have hsame := (h b (.single hb)).2
  refine ⟨fun c hc => ?_, hsame⟩
  obtain ⟨hoff, hprot⟩ := h c (.head hb hc)
  exact ⟨hoff, hprot.trans hsame.symm⟩

/-- It is enough that each patch lies on pages of the handle, or on other pages that have one
protection. -/
theorem oneProtection_of_patches {fh : FunchookT w} {access : Addr w → π}
    (h : ∀ e ∈ fh.entries,
      (∀ a, OnCodePages P e.targetFunc (P.patchCodeByteSize e) a → ¬ OffPages P fh.pageList a) ∨
        ∃ prot, ∀ a, OnCodePages P e.targetFunc (P.patchCodeByteSize e) a →
          OffPages P fh.pageList a ∧ access a = prot)
    {a : Addr w} (hoff : OffPages P fh.pageList a) : OneProtection P fh access a := by
  intro b hb
  induction hb with
  | refl => exact ⟨hoff, rfl⟩
  | tail _ hstep ih =>
    obtain ⟨hbOff, hbProt⟩ := ih
    obtain ⟨e, he, hon, rfl⟩ := hstep
    rcases h e he with hin | ⟨prot, hprot⟩
    · exact absurd hbOff (hin _ hon)
    · have hfirst := hprot _ (onCodePages_first hon)
      exact ⟨hfirst.1, (hfirst.2.trans (hprot _ hon).2.symm).trans hbProt⟩

/-- Every page with a target byte is in the range that is unprotected. -/
theorem onCodePages_of_onTargetPage {k : ℕ} (hunit : P.pageSize = 2 ^ k) {e : FunchookEntry w}
    (hsize : 2 * P.pageSize + P.patchCodeByteSize e ≤ 2 ^ w) {a : Addr w}
    (h : OnTargetPage P e a) : OnCodePages P e.targetFunc (P.patchCodeByteSize e) a := by
  obtain ⟨t, ht, hsame⟩ := h
  have hpos : 0 < 2 ^ k := Nat.two_pow_pos k
  have hpageSize : (BitVec.ofNat w P.pageSize).toNat = 2 ^ k := by
    rw [toNat_pageSize (by omega), hunit]
  have hlen : (BitVec.ofNat w (P.patchCodeByteSize e)).toNat = P.patchCodeByteSize e := by
    rw [BitVec.toNat_ofNat, Nat.mod_eq_of_lt (by omega)]
  have hmod := Nat.mod_lt e.targetFunc.toNat hpos
  obtain ⟨q, hq⟩ : 2 ^ k ∣ 2 ^ w := Nat.pow_dvd_pow 2 (Nat.le_of_lt (two_pow_lt hpageSize))
  -- the byte number `i` of the patch
  have hi : (t - e.targetFunc).toNat < P.patchCodeByteSize e := ht
  have hbyte : t.toNat = (e.targetFunc.toNat + (t - e.targetFunc).toNat) % 2 ^ w := by
    rw [← BitVec.toNat_add, BitVec.add_comm, BitVec.sub_add_cancel]
  rw [hbyte, hunit, hq] at hsame
  have hoffset := offset_on_circle hpos (hq ▸ e.targetFunc.isLt) (by omega) hsame
  show (a - (memState (BitVec.ofNat w P.pageSize) e.targetFunc
      (BitVec.ofNat w (P.patchCodeByteSize e))).addr).toNat <
    (memState (BitVec.ofNat w P.pageSize) e.targetFunc
      (BitVec.ofNat w (P.patchCodeByteSize e))).size.toNat
  rw [BitVec.toNat_sub, memState_addr hpageSize, memState_size hpageSize _ _ (by
    rw [hlen, hpageSize]
    omega), hlen, hq, hoffset]
  -- the block of the byte ends where the next one begins
  have hblock : ((e.targetFunc.toNat % 2 ^ k + (t - e.targetFunc).toNat) / 2 ^ k + 1) * 2 ^ k ≤
      up (2 ^ k) (e.targetFunc.toNat % 2 ^ k + P.patchCodeByteSize e) := by
    apply Nat.mul_le_mul_right
    rw [← Nat.add_div_right _ hpos]
    exact Nat.div_le_div_right (by omega)
  rw [Nat.add_mul, Nat.one_mul] at hblock
  have hlow := Nat.mod_lt a.toNat hpos
  omega

/-- **Unix.** A call that returns 0 leaves the pages of the targets readable and executable. -/
theorem unix_target_pages (hpage : P.pageSize < 2 ^ w) {fh : FunchookT w}
    {s s' : Unix.ProtectState w}
    (h : InstallOrUninstall (Unix.protectOps (BitVec.ofNat w P.pageSize)) P fh s s')
    {e : FunchookEntry w} (he : e ∈ fh.entries) {a : Addr w}
    (ha : OnCodePages P e.targetFunc (P.patchCodeByteSize e) a)
    (hoff : OffPages P fh.pageList a) : s'.access a = Unix.protReadExec := by
  have rules := Unix.protectRules hpage
  have hkept : ∀ x : FunchookEntry w, ∀ acc : Addr w → Unix.Prot, acc a = Unix.protReadExec →
      leave P (fun _ _ => Unix.protReadExec) x acc a = Unix.protReadExec := by
    intro x acc hacc
    unfold leave
    split
    · rfl
    · exact hacc
  exact pageLoops_reach rules (fun acc => acc a = Unix.protReadExec)
    (fun acc acc' hsame hacc => (hsame a hoff).trans hacc) (fun x _ => hkept x)
    (List.Subset.refl fh.pageList) he (fun acc => if_pos ha) (installOrUninstall_loops rules h)

/-- **Windows.** A call that returns 0 leaves a byte as it was, when all that its protection can be
taken from had that protection. -/
theorem windows_target_pages (hpage : P.pageSize < 2 ^ w) {fh : FunchookT w}
    {s s' : Windows.ProtectState w}
    (h : InstallOrUninstall (Windows.protectOps (BitVec.ofNat w P.pageSize)) P fh s s')
    {a : Addr w} (hone : OneProtection P fh s.access a) : s'.access a = s.access a := by
  have rules := Windows.protectRules hpage
  have hkept : ∀ acc : Addr w → Windows.Protect,
      (∀ b, OneProtection P fh s.access b → acc b = s.access b) → ∀ e ∈ fh.entries, ∀ b,
        OneProtection P fh s.access b →
          leave P (fun access first => access first) e acc b = s.access b := by
    intro acc hacc e he b hb
    unfold leave
    by_cases hon : OnCodePages P e.targetFunc (P.patchCodeByteSize e) b
    · -- the first page of the patch is one of those that the condition is about
      rw [if_pos hon]
      obtain ⟨hfirst, hsame⟩ := hb.takesFrom ⟨e, he, hon, rfl⟩
      exact (hacc _ hfirst).trans hsame
    · rw [if_neg hon]
      exact hacc b hb
  have hinv := pageLoops_keep rules
    (fun acc => ∀ b, OneProtection P fh s.access b → acc b = s.access b)
    (fun acc acc' hsame hacc b hb => (hsame b (hb b .refl).1).trans (hacc b hb))
    (fun e he acc hacc => hkept acc hacc e he) (List.Subset.refl fh.pageList)
    (installOrUninstall_loops rules h) (fun b _ => rfl)
  exact hinv a hone

/-- **The protection of the pages of the targets.** After an install or an uninstall that returns
0, a page with a target byte that does not belong to the handle is readable and executable on
Unix; on Windows it is as it was, when the pages that its protection can be taken from are not the
handle's either and had one protection with it. -/
theorem target_pages_after {k : ℕ} (hunit : P.pageSize = 2 ^ k)
    (hsize : 2 * P.pageSize + P.maxPatchCodeSize * P.insnSize ≤ 2 ^ w) {fh : FunchookT w}
    (hcode : ∀ e ∈ fh.entries, e.patchCodeSize.toNat ≤ P.maxPatchCodeSize) :
    (∀ s s', InstallOrUninstall (Unix.protectOps (BitVec.ofNat w P.pageSize)) P fh s s' →
      ∀ e ∈ fh.entries, ∀ a, OnTargetPage P e a → OffPages P fh.pageList a →
        s'.access a = Unix.protReadExec) ∧
    ∀ s s', InstallOrUninstall (Windows.protectOps (BitVec.ofNat w P.pageSize)) P fh s s' →
      ∀ e ∈ fh.entries, ∀ a, OnTargetPage P e a → OneProtection P fh s.access a →
        s'.access a = s.access a := by
  have hpos : 0 < P.pageSize := by
    rw [hunit]
    exact Nat.two_pow_pos k
  constructor
  · intro s s' h e he a ha hoff
    have hpatch : 2 * P.pageSize + P.patchCodeByteSize e ≤ 2 ^ w :=
      Nat.le_trans (Nat.add_le_add_left (Nat.mul_le_mul_right _ (hcode e he)) _) hsize
    exact unix_target_pages (by omega) h he (onCodePages_of_onTargetPage hunit hpatch ha) hoff
  · intro s s' h e _ a _ hone
    exact windows_target_pages (by omega) h hone

end Targets

/-! ## A target page that was writable -/

/-- Every page is readable, writable and executable. -/
def sampleWritable : Unix.ProtectState 64 :=
  ⟨⟨fun _ => Unix.protReadWriteExec, [], []⟩, Unix.protReadWriteExec⟩

/-- Every page is readable and executable. -/
def sampleExecutable : Windows.ProtectState 64 := ⟨fun _ => Windows.pageExecuteRead, [], []⟩

theorem sampleEntry_onTargetPage : OnTargetPage samplePlatform sampleEntry 0x401fff := by
  refine ⟨0x401000, ?_, ?_⟩
  · decide +kernel
  · decide +kernel

/-- The one page of the sample handle lies behind the page of the function. -/
theorem sample_offPages {a : Addr 64} (ha : InRange 0x401000 0x1000 a) :
    OffPages samplePlatform sampleHandle.fh.pageList a := by
  intro page hpage hin
  have haddr : sampleHandle.fh.pageList.all fun page => decide (page.addr = 0x500000) := by
    decide +kernel
  have hin' : InRange (0x500000 : Addr 64) 0x1000 a := by
    rw [← of_decide_eq_true (List.all_eq_true.mp haddr page hpage)]
    exact hin
  have hlt : (a - 0x401000).toNat < 0x1000 := ha
  have hlt' : (a - 0x500000).toNat < 0x1000 := hin'
  bv_omega

/-- Install takes the write permission away from the page of the function. -/
theorem install_changes_protection :
    ¬ ∀ (s s' : Unix.ProtectState 64),
      InstallOrUninstall (Unix.protectOps 0x1000) samplePlatform sampleHandle.fh s s' →
        ∀ e ∈ sampleHandle.fh.entries, ∀ a, OnTargetPage samplePlatform e a →
          OffPages samplePlatform sampleHandle.fh.pageList a → s'.access a = s.access a := by
  intro h
  have hsame := h sampleWritable _ (installOrUninstall_install (by decide +kernel)) sampleEntry
    (List.head_mem _) _ sampleEntry_onTargetPage (sample_offPages (by decide))
  revert hsame
  decide +kernel

theorem target_pages_after_install :
    (funchookInstallProtect (Unix.protectOps 0x1000) samplePlatform sampleHandle.fh
        sampleWritable).2.access 0x401fff = Unix.protReadExec ∧
      (funchookInstallProtect (Windows.protectOps 0x1000) samplePlatform sampleHandle.fh
        sampleExecutable).2.access 0x401fff = Windows.pageExecuteRead := by
  have hunit : samplePlatform.pageSize = 2 ^ 12 := by decide
  have hcode : ∀ e ∈ sampleHandle.fh.entries,
      e.patchCodeSize.toNat ≤ samplePlatform.maxPatchCodeSize := by
    intro e he
    have hall : sampleHandle.fh.entries.all fun e =>
      decide (e.patchCodeSize.toNat ≤ samplePlatform.maxPatchCodeSize) := by decide +kernel
    exact of_decide_eq_true (List.all_eq_true.mp hall e he)
  have hoff : OffPages samplePlatform sampleHandle.fh.pageList 0x401fff :=
    sample_offPages (by decide)
  have hone : OneProtection samplePlatform sampleHandle.fh sampleExecutable.access 0x401fff := by
    refine oneProtection_of_patches (fun e he => ?_) hoff
    have hpages : sampleHandle.fh.entries.all fun e => decide
        (codePages samplePlatform e.targetFunc (samplePlatform.patchCodeByteSize e) =
          (0x401000, 0x1000)) := by decide +kernel
    have hon := of_decide_eq_true (List.all_eq_true.mp hpages e he)
    refine .inr ⟨Windows.pageExecuteRead, fun a ha => ⟨sample_offPages ?_, rfl⟩⟩
    rw [OnCodePages, hon] at ha
    exact ha
  obtain ⟨hunix, hwindows⟩ := target_pages_after hunit (by decide) hcode
  constructor
  · exact hunix sampleWritable _ (installOrUninstall_install (by decide +kernel)) sampleEntry
      (List.head_mem _) _ sampleEntry_onTargetPage hoff
  · exact hwindows sampleExecutable _ (installOrUninstall_install (by decide +kernel)) sampleEntry
      (List.head_mem _) _ sampleEntry_onTargetPage hone

/-! ## A patch over two pages -/

/-- A handle for the function at 0x401ffe, whose patch of five bytes reaches the next page. -/
def straddlingHandle : PrepareResult 64 :=
  (funchookPrepare samplePlatform funchookCreate
    { X86.sampleWorld with bytes := fun _ => 0x90 } 0x401ffe 0x403000 ⟨.ok 0x500000, .ok⟩).get
      (by decide +kernel)

def straddlingEntry : FunchookEntry 64 := straddlingHandle.fh.entries.head (by decide +kernel)

/-- The first page of the patch is readable and executable, the second readable and writable. -/
def straddlingPages : Windows.ProtectState 64 where
  access a := if a < 0x402000 then Windows.pageExecuteRead else Windows.pageReadWrite
  answers := []
  calls := []

theorem straddling_offPages : OffPages samplePlatform straddlingHandle.fh.pageList 0x402000 := by
  intro page hpage
  have hall : straddlingHandle.fh.pageList.all fun page =>
      decide (¬ InRange page.addr samplePlatform.pageSize 0x402000) := by decide +kernel
  exact of_decide_eq_true (List.all_eq_true.mp hall page hpage)

/-- On Windows the second page of such a patch gets the protection of the first. -/
theorem install_changes_second_page :
    ¬ ∀ (s s' : Windows.ProtectState 64),
      InstallOrUninstall (Windows.protectOps 0x1000) samplePlatform straddlingHandle.fh s s' →
        ∀ e ∈ straddlingHandle.fh.entries, ∀ a, OnTargetPage samplePlatform e a →
          OffPages samplePlatform straddlingHandle.fh.pageList a → s'.access a = s.access a := by
  intro h
  have hpage : OnTargetPage samplePlatform straddlingEntry 0x402000 := by
    refine ⟨0x402000, ?_, rfl⟩
    decide +kernel
  have hsame := h straddlingPages _ (installOrUninstall_install (by decide +kernel))
    straddlingEntry (List.head_mem _) _ hpage straddling_offPages
  revert hsame
  decide +kernel

end Funchook
