import Funchook.Lib.SpinLock
import Funchook.ManyHandles
import Funchook.RustWrapper

/-!
# The control lock of the wrapper (`rust/lib.rs`)

Every method of the wrapper that calls the library holds `CONTROL_LOCK` while it does, and `drop`
does so after it has looked at the flag of its own wrapper. How the library works while the lock is
held is left open: any division of a call into steps will do that has the effect of the call when
nobody else works. A wrapper belongs to one thread, as it is neither `Send` nor `Sync`.
-/

namespace Funchook

open ByteMemory Runs SpinLock

variable {w : ℕ}

/-! ## Wrappers -/

/-- The process and its wrappers, by any names for them. -/
structure RustProcess (w : ℕ) where
  world : World w
  wrappers : ℕ → Option (RustFunchook w)

def RustProcess.start (s₀ : World w) : RustProcess w := ⟨s₀, fun _ => none⟩

def RustProcess.setWrapper (s : RustProcess w) (world : World w) (i : ℕ)
    (f : Option (RustFunchook w)) : RustProcess w :=
  ⟨world, Function.update s.wrappers i f⟩

/-- `Funchook::new`, a method of the wrapper `i`, `Drop::drop`. -/
inductive RustCall (w : ℕ) where
  | new (i : ℕ)
  | on (i : ℕ) (c : Call w)
  | drop (i : ℕ) (os : List OsAnswer)

def RustCall.name : RustCall w → ℕ
  | .new i => i
  | .on i _ => i
  | .drop i _ => i

variable (P : Platform w)

def RustProcess.step (s : RustProcess w) : RustCall w → Option (RustProcess w)
  | .new i =>
    match s.wrappers i with
    | none => some (s.setWrapper s.world i (some ⟨funchookCreate, false⟩))
    | some _ => none
  | .on i c => do
    let f ← s.wrappers i
    let o ← f.call P s.world c
    return s.setWrapper o.world i (some o.funchook)
  | .drop i os => do
    let f ← s.wrappers i
    return s.setWrapper (f.drop P s.world os) i none

/-- The calls made one at a time; a page that the operating system returns is not mapped yet. -/
def RustProcessStep (s : RustProcess w) (c : RustCall w) (s' : RustProcess w) : Prop :=
  (∀ i d, c = .on i d → d.Fresh P s.world) ∧ s.step P c = some s'

/-- What a thread knows when it asks for the lock: a wrapper is made under a new name and used
while it exists, and `drop` returns at once when the flag of its wrapper is set. -/
def Checked : RustCall w → RustProcess w → Prop
  | .new i, s => s.wrappers i = none
  | .on i _, s => (s.wrappers i).isSome
  | .drop i _, s => ∃ f, s.wrappers i = some f ∧ f.installed = false

/-- A division of the calls into steps. -/
structure CallSteps (φ : Type) extends Work (RustProcess w) (RustCall w) φ where
  /-- A call borrows its own wrapper only. -/
  frame : ∀ {c s p s' p' i}, step c (s, p) (s', p') → i ≠ c.name → s'.wrappers i = s.wrappers i
  /-- Alone, the steps of a call have its effect. -/
  sound : ∀ {s c s'}, toWork.Call s c s' → RustProcessStep P s c s'

variable {P} {ι φ : Type}

theorem checked_congr {c : RustCall w} {s s' : RustProcess w}
    (h : s'.wrappers c.name = s.wrappers c.name) (hchecked : Checked c s) : Checked c s' := by
  cases c with
  | new i => exact h.trans hchecked
  | on i d =>
    show (s'.wrappers i).isSome
    rw [show s'.wrappers i = s.wrappers i from h]
    exact hchecked
  | drop i os =>
    show ∃ f, s'.wrappers i = some f ∧ f.installed = false
    rw [show s'.wrappers i = s.wrappers i from h]
    exact hchecked

/-- The threads, each of which owns its wrappers. -/
def CallSteps.system (W : CallSteps P φ) (owner : ℕ → ι) :
    System ι (RustProcess w) (RustCall w) φ where
  toWork := W.toWork
  owns := fun t c => owner c.name = t
  checked := Checked
  stable := by
    intro t t' c c' s p s' p' hne howns howns' hchecked hstep
    refine checked_congr (W.frame hstep ?_) hchecked
    intro hname
    exact hne (by rw [← howns, hname, howns'])

/-! ## One call at a time -/

/-- The flag of every wrapper is that of its handle. -/
def FlagsAgree (s : RustProcess w) : Prop :=
  ∀ i f, s.wrappers i = some f → f.installed = f.raw.installed

theorem setWrapper_cases {s : RustProcess w} {world : World w} {i j : ℕ}
    {f : Option (RustFunchook w)} {f' : RustFunchook w}
    (h : (s.setWrapper world i f).wrappers j = some f') :
    j = i ∧ f = some f' ∨ j ≠ i ∧ s.wrappers j = some f' := by
  unfold RustProcess.setWrapper at h
  dsimp only at h
  by_cases hj : j = i
  · subst hj
    rw [Function.update_self] at h
    exact Or.inl ⟨rfl, h⟩
  · rw [Function.update_of_ne hj] at h
    exact Or.inr ⟨hj, h⟩

/-- A method does to the native handle what the function of the library does. -/
theorem rust_call_raw {f : RustFunchook w} {s : World w} {c : Call w} {o : RustOutcome w}
    (h : f.call P s c = some o) :
    ∃ r, f.raw.call P s c = some r ∧ o.funchook.raw = r.fh ∧ o.world = r.world := by
  cases c with
  | prepare targetFunc hookFunc answer =>
    obtain ⟨r, hr, rfl⟩ := Option.map_eq_some_iff.mp h
    exact ⟨r.toCallResult, by rw [FunchookT.call, hr]; rfl, rfl, rfl⟩
  | prepareWithParams targetFunc params answer =>
    obtain ⟨r, hr, rfl⟩ := Option.map_eq_some_iff.mp h
    exact ⟨r.toCallResult, by rw [FunchookT.call, hr]; rfl, rfl, rfl⟩
  | install os =>
    cases h
    exact ⟨_, rfl, rust_install_raw f s os⟩
  | uninstall os =>
    cases h
    exact ⟨_, rfl, rust_uninstall_raw f s os⟩

theorem rust_call_agree {f : RustFunchook w} {s : World w} {c : Call w} {o : RustOutcome w}
    (h : f.call P s c = some o) (hagree : f.installed = f.raw.installed) :
    o.funchook.installed = o.funchook.raw.installed := by
  cases c with
  | prepare targetFunc hookFunc answer =>
    obtain ⟨r, hr, rfl⟩ := Option.map_eq_some_iff.mp h
    exact hagree.trans (prepare_installed hr).symm
  | prepareWithParams targetFunc params answer =>
    obtain ⟨r, hr, rfl⟩ := Option.map_eq_some_iff.mp h
    exact hagree.trans (prepare_installed hr).symm
  | install os =>
    cases h
    exact rust_install_agree s os hagree
  | uninstall os =>
    cases h
    exact rust_uninstall_agree s os hagree

theorem flagsAgree_start (s₀ : World w) : FlagsAgree (.start s₀) := fun _ _ h => by cases h

theorem flagsAgree_step {s s' : RustProcess w} {c : RustCall w} (hagree : FlagsAgree s)
    (hstep : RustProcessStep P s c s') : FlagsAgree s' := by
  obtain ⟨-, hstep⟩ := hstep
  cases c with
  | new i =>
    rw [RustProcess.step] at hstep
    split at hstep
    · cases hstep
      intro j f hf
      rcases setWrapper_cases hf with ⟨-, hf⟩ | ⟨-, hf⟩
      · cases hf
        rfl
      · exact hagree j f hf
    · cases hstep
  | on i d =>
    obtain ⟨f, hf, hrest⟩ := Option.bind_eq_some_iff.mp hstep
    obtain ⟨o, ho, hs'⟩ := Option.bind_eq_some_iff.mp hrest
    cases hs'
    intro j f' hf'
    rcases setWrapper_cases hf' with ⟨-, hf'⟩ | ⟨-, hf'⟩
    · cases hf'
      exact rust_call_agree ho (hagree i f hf)
    · exact hagree j f' hf'
  | drop i os =>
    obtain ⟨f, hf, hs'⟩ := Option.bind_eq_some_iff.mp hstep
    cases hs'
    intro j f' hf'
    rcases setWrapper_cases hf' with ⟨-, hf'⟩ | ⟨-, hf'⟩
    · cases hf'
    · exact hagree j f' hf'

/-! ## The native handles -/

def RustProcess.toMany (s : RustProcess w) : ManyState w :=
  ⟨s.world, fun i => (s.wrappers i).map RustFunchook.raw⟩

def RustCall.toMany : RustCall w → ManyCall w
  | .new i => .create i
  | .on i c => .on i c
  | .drop i os => .destroy i os

theorem toMany_setWrapper (s : RustProcess w) (world : World w) (i : ℕ)
    (f : Option (RustFunchook w)) : (s.setWrapper world i f).toMany =
      s.toMany.setHandle world i (f.map RustFunchook.raw) := by
  unfold RustProcess.toMany RustProcess.setWrapper ManyState.setHandle
  congr 1
  funext j
  by_cases hj : j = i
  · subst hj
    simp
  · simp [Function.update_of_ne hj]

theorem toMany_handles {s : RustProcess w} {i : ℕ} {f : RustFunchook w}
    (h : s.wrappers i = some f) : s.toMany.handles i = some f.raw := by
  show (s.wrappers i).map RustFunchook.raw = _
  rw [h]
  rfl

/-- A drop that gets as far as the lock finds its handle not installed, and destroys it. -/
theorem drop_destroys {s : RustProcess w} (hagree : FlagsAgree s) {i : ℕ} {f : RustFunchook w}
    (hf : s.wrappers i = some f) (hflag : f.installed = false) (os : List OsAnswer) :
    funchookDestroyInternal P f.raw s.world os = (errorSuccess, f.drop P s.world os) := by
  have hraw : f.raw.installed = false := (hagree i f hf).symm.trans hflag
  rw [RustFunchook.drop, hflag, destroy_not_installed _ _ os hraw]
  rfl

/-- If the call is a drop, its handle exists, and the library destroys it. -/
def DropDestroys (P : Platform w) (s : RustProcess w) (c : RustCall w) : Prop :=
  ∀ i os, c = .drop i os → ∃ f, s.wrappers i = some f ∧
    funchookDestroyInternal P f.raw s.world os = (errorSuccess, f.drop P s.world os)

theorem dropDestroys_of_checked {s : RustProcess w} {c : RustCall w} (hagree : FlagsAgree s)
    (hchecked : Checked c s) : DropDestroys P s c := by
  intro i os hc
  subst hc
  obtain ⟨f, hf, hflag⟩ := hchecked
  exact ⟨f, hf, drop_destroys hagree hf hflag os⟩

/-- **Refinement.** The wrappers do to the native handles what calls of the library do. -/
theorem rustStep_refines {s s' : RustProcess w} {c : RustCall w} (hagree : FlagsAgree s)
    (hchecked : Checked c s) (hstep : RustProcessStep P s c s') :
    ManyStep P s.toMany c.toMany s'.toMany := by
  obtain ⟨hfresh, hstep⟩ := hstep
  cases c with
  | new i =>
    refine ⟨(fun _ _ h => by cases h), ?_⟩
    rw [RustProcess.step] at hstep
    split at hstep
    · rename_i hnone
      cases hstep
      have hhandle : s.toMany.handles i = none := by
        show (s.wrappers i).map RustFunchook.raw = none
        rw [hnone]
        rfl
      rw [toMany_setWrapper, RustCall.toMany, ManyState.step, hhandle]
      rfl
    · cases hstep
  | on i d =>
    refine ⟨fun j e h => ?_, ?_⟩
    · cases h
      exact hfresh i d rfl
    · obtain ⟨f, hf, hrest⟩ := Option.bind_eq_some_iff.mp hstep
      obtain ⟨o, ho, hs'⟩ := Option.bind_eq_some_iff.mp hrest
      cases hs'
      obtain ⟨r, hr, hraw, hworld⟩ := rust_call_raw ho
      rw [toMany_setWrapper, hworld, Option.map_some, hraw]
      show (s.toMany.handles i).bind _ = _
      rw [toMany_handles hf, Option.bind_some]
      show (f.raw.call P s.world d).bind _ = _
      rw [hr]
      rfl
  | drop i os =>
    refine ⟨(fun _ _ h => by cases h), ?_⟩
    obtain ⟨f, hf, hflag⟩ := hchecked
    have hdestroy := drop_destroys (P := P) hagree hf hflag os
    obtain ⟨f', hf', hs'⟩ := Option.bind_eq_some_iff.mp hstep
    cases hf.symm.trans hf'
    cases hs'
    rw [toMany_setWrapper]
    show (s.toMany.handles i).bind _ = _
    rw [toMany_handles hf, Option.bind_some]
    show some (if (funchookDestroyInternal P f.raw s.world os).1 = errorSuccess then
      s.toMany.setHandle (funchookDestroyInternal P f.raw s.world os).2 i none
        else s.toMany.setHandle (funchookDestroyInternal P f.raw s.world os).2 i (some f.raw)) = _
    rw [hdestroy]
    rfl

/-! ## Many threads -/

section Threads

variable [DecidableEq ι] (W : CallSteps P φ) (owner : ℕ → ι)
  {cond : RustProcess w → RustCall w → Prop} {s₀ : World w} {es : List (ι × Act (RustCall w))}
  {S : State ι (RustProcess w) (RustCall w) φ}

omit [DecidableEq ι] in
theorem trace_of_calls {cs : List (RustCall w)} {s : RustProcess w}
    (h : Trace W.Call ((W.system owner).Admits cond) (.start s₀) cs s) :
    Trace (RustProcessStep P) (fun s c => Checked c s ∧ cond s c) (.start s₀) cs s :=
  h.imp fun _ _ _ hadmits hcall => ⟨hadmits, W.sound hcall⟩

/-- The calls that are done have been made one at a time, and the call that has the lock has been
begun behind them. -/
theorem exists_trace (h : (W.system owner).Execution cond (.start s₀) es S) :
    ∃ s, Trace (RustProcessStep P) (fun s c => Checked c s ∧ cond s c) (.start s₀)
        (completed es) s ∧
      (S.locked = false → S.shared = s ∧ acquired es = completed es) ∧
      ∀ t c p, S.pc t = .inside c p →
        acquired es = completed es ++ [c] ∧ Checked c s ∧ W.Partial c s (S.shared, p) := by
  cases h.serial with
  | free hfree hnone hacquired htrace =>
    refine ⟨_, trace_of_calls W owner htrace, fun _ => ⟨rfl, hacquired⟩, ?_⟩
    intro t c p hpc
    exact absurd ⟨c, p, hpc⟩ (hnone t)
  | taken t₀ c₀ p₀ s hlocked hpc₀ hothers hacquired htrace hadmits hbegun =>
    refine ⟨s, trace_of_calls W owner htrace, fun hfree => ?_, ?_⟩
    · rw [hlocked] at hfree
      cases hfree
    · intro t c p hpc
      have ht : t = t₀ := by
        by_contra hne
        exact hothers t hne ⟨c, p, hpc⟩
      subst ht
      cases hpc₀.symm.trans hpc
      exact ⟨hacquired, hadmits.1, hbegun⟩

/-- **Serial.** Whatever the threads do, at most one of them is at work in the library, and the
process is that of the calls that are done, made one at a time in the order in which they took the
lock, with the begun part of the call that has it. -/
theorem control_serial (h : (W.system owner).Execution cond (.start s₀) es S) :
    (∀ t t', (S.pc t).Inside → (S.pc t').Inside → t = t') ∧
      ∃ s, Trace (RustProcessStep P) (fun s c => Checked c s ∧ cond s c) (.start s₀)
          (completed es) s ∧
        (S.locked = false → S.shared = s ∧ acquired es = completed es) ∧
        ∀ t c p, S.pc t = .inside c p →
          acquired es = completed es ++ [c] ∧ W.Partial c s (S.shared, p) := by
  obtain ⟨s, htrace, hfree, hinside⟩ := exists_trace W owner h
  refine ⟨fun t t' => h.serial.exclusive, s, htrace, hfree, ?_⟩
  intro t c p hpc
  obtain ⟨hacquired, -, hbegun⟩ := hinside t c p hpc
  exact ⟨hacquired, hbegun⟩

/-- **No deadlock.** While a thread makes a call, some thread can do more than wait, when a call
never gets stuck that works alone. -/
theorem control_progress (h : (W.system owner).Execution cond (.start s₀) es S)
    (hprogress : (W.system owner).Progresses cond) {t : ι} (ht : S.pc t ≠ .outside) :
    ∃ e S', (W.system owner).Step S e S' ∧ e.2 ≠ .fail ∧ e.2 ≠ .spin :=
  h.serial.progress hprogress ht

/-- While nobody holds the lock, the process is that of calls made one at a time. -/
theorem trace_of_free (h : (W.system owner).Execution cond (.start s₀) es S)
    (hfree : S.locked = false) :
    Trace (RustProcessStep P) (fun s c => Checked c s ∧ cond s c) (.start s₀) (completed es)
      S.shared := by
  obtain ⟨s, htrace, hshared, -⟩ := exists_trace W owner h
  rwa [(hshared hfree).1]

/-- **Drop.** The test that `drop` makes before it has the lock is good: every handle that is
destroyed is not installed, and the library does not refuse; nor does it for the drop that has the
lock. -/
theorem drops_destroy (h : (W.system owner).Execution cond (.start s₀) es S) :
    ∃ s, FlagsAgree s ∧
      Trace (RustProcessStep P) (fun s c => DropDestroys P s c) (.start s₀) (completed es) s ∧
      (S.locked = false → S.shared = s) ∧
      ∀ t c p, S.pc t = .inside c p → W.Partial c s (S.shared, p) ∧ DropDestroys P s c := by
  obtain ⟨s, htrace, hfree, hinside⟩ := exists_trace W owner h
  obtain ⟨hstrong, hagree⟩ := htrace.strengthen (flagsAgree_start s₀)
    fun _ _ _ hinv _ hstep => flagsAgree_step hinv hstep
  refine ⟨s, hagree, ?_, fun hlock => (hfree hlock).1, ?_⟩
  · refine hstrong.imp ?_
    rintro s c s' ⟨hinv, hchecked, -⟩ hstep
    exact ⟨dropDestroys_of_checked hinv hchecked, hstep⟩
  · intro t c p hpc
    obtain ⟨-, hchecked, hbegun⟩ := hinside t c p hpc
    exact ⟨hbegun, dropDestroys_of_checked hagree hchecked⟩

/-- The native handles of a process are those of a run of calls of the library. -/
theorem manyInv_of_trace {cs : List (RustCall w)} {s : RustProcess w}
    (h : Trace (RustProcessStep P) (fun s c => Checked c s ∧ c.toMany.OsSucceeds ∧
      PrepareFindsOriginal P s₀ s.toMany c.toMany) (.start s₀) cs s) : ManyInv P s₀ s.toMany := by
  have hboth : FlagsAgree s ∧ ManyInv P s₀ s.toMany := by
    refine @Run.invariant _ _ _ _ _ _ (fun s => FlagsAgree s ∧ ManyInv P s₀ s.toMany)
      ⟨flagsAgree_start s₀, manyInv_start P s₀⟩ ?_ h.run
    rintro s c s' ⟨hagree, hinv⟩ ⟨hchecked, hos, hfinds⟩ hstep
    exact ⟨flagsAgree_step hagree hstep,
      manyInv_step hinv hos hfinds (rustStep_refines hagree hchecked hstep)⟩
  exact hboth.2

/-- **No stale code, with threads.** Whatever the threads do, when nobody is at work and no handle
is installed, every byte mapped at the start is original, under the conditions under which that is
so for calls made one at a time. -/
theorem threads_none_installed_original
    (h : (W.system owner).Execution (fun s c => c.toMany.OsSucceeds ∧
      PrepareFindsOriginal P s₀ s.toMany c.toMany) (.start s₀) es S)
    (hfree : S.locked = false)
    (hnone : ∀ i f, S.shared.wrappers i = some f → f.installed = false) (a : Addr w)
    (ha : s₀.mapped a = true) : S.shared.world.bytes a = s₀.bytes a := by
  have htrace := trace_of_free W owner h hfree
  have hinv := manyInv_of_trace htrace
  have hagree := (htrace.strengthen (flagsAgree_start s₀)
    fun _ _ _ hinv _ hstep => flagsAgree_step hinv hstep).2
  refine hinv.frame a ha fun i fh hfh hinst => ?_
  obtain ⟨f, hf, rfl⟩ := Option.map_eq_some_iff.mp hfh
  rw [← hagree i f hf, hnone i f hf] at hinst
  cases hinst

end Threads

/-! ## A thread that waits for the calls of another one -/

/-- Where a call is that first works out what it does, and then stores it. -/
inductive CopyPhase (w : ℕ) where
  | reading
  | computed (world : World w) (f : Option (RustFunchook w))
  | stored

inductive CopyStep (P : Platform w) (c : RustCall w) :
    RustProcess w × CopyPhase w → RustProcess w × CopyPhase w → Prop where
  | compute (s : RustProcess w) (world : World w) (f : Option (RustFunchook w))
      (h : RustProcessStep P s c (s.setWrapper world c.name f)) :
      CopyStep P c (s, .reading) (s, .computed world f)
  | store (s : RustProcess w) (world : World w) (f : Option (RustFunchook w)) :
      CopyStep P c (s, .computed world f) (s.setWrapper world c.name f, .stored)

def copyWork (P : Platform w) : Work (RustProcess w) (RustCall w) (CopyPhase w) where
  start := fun _ => .reading
  step := CopyStep P
  finished := fun _ p => p = .stored

theorem copy_partial {c : RustCall w} {s : RustProcess w} {x : RustProcess w × CopyPhase w}
    (h : (copyWork P).Partial c s x) : x = (s, .reading) ∨ ∃ world f,
      RustProcessStep P s c (s.setWrapper world c.name f) ∧
        (x = (s, .computed world f) ∨ x = (s.setWrapper world c.name f, .stored)) := by
  induction h with
  | refl => exact Or.inl rfl
  | tail _ hstep ih =>
    cases hstep with
    | compute s' world f hcall =>
      rcases ih with heq | ⟨_, _, -, heq | heq⟩
      · cases heq
        exact Or.inr ⟨world, f, hcall, Or.inl rfl⟩
      · cases heq
      · cases heq
    | store s' world f =>
      rcases ih with heq | ⟨_, _, hcall, heq | heq⟩
      · cases heq
      · cases heq
        exact Or.inr ⟨world, f, hcall, Or.inr rfl⟩
      · cases heq

def copySteps (P : Platform w) : CallSteps P (CopyPhase w) where
  toWork := copyWork P
  frame := by
    intro c s p s' p' i hstep hi
    cases hstep with
    | compute => rfl
    | store world f => exact Function.update_of_ne hi ..
  sound := by
    rintro s c s' ⟨p, hbegun, rfl⟩
    rcases copy_partial hbegun with heq | ⟨world, f, hcall, heq | heq⟩
    · cases heq
    · cases heq
    · cases heq
      exact hcall

/-- The thread of a wrapper: the first thread has the first one. -/
def sampleOwner (i : ℕ) : Bool := decide (i ≠ 0)

abbrev SampleCond (s : RustProcess 64) (c : RustCall 64) : Prop :=
  c.toMany.OsSucceeds ∧ PrepareFindsOriginal samplePlatform X86.sampleWorld s.toMany c.toMany

/-- The second thread waits, and the first one makes no call. -/
def waitingState (s : RustProcess 64) :
    SpinLock.State Bool (RustProcess 64) (RustCall 64) (CopyPhase 64) :=
  ⟨false, fun t => if t then .waiting (.new 1) else .outside, s⟩

/-- The second thread waits while the first one has made some calls, the last one first. -/
def SampleWaits (cs : List (RustCall 64)) (s : RustProcess 64) : Prop :=
  ∃ es, ((copySteps samplePlatform).system sampleOwner).Execution SampleCond
    (.start X86.sampleWorld) es (waitingState s) ∧ completed es = cs.reverse

theorem sampleWaits_start : SampleWaits [] (.start X86.sampleWorld) := by
  refine ⟨[(true, .call (.new 1)), (true, .fail)], ?_, rfl⟩
  have hstart : ((copySteps samplePlatform).system sampleOwner).Execution SampleCond
      (.start X86.sampleWorld) [] (.start (.start X86.sampleWorld)) := .start
  have hcalled := hstart.step (fun _ h => by cases h) (.call true (RustCall.new 1) rfl rfl rfl)
  have hfailed := hcalled.step (fun _ h => by cases h) (.fail true (RustCall.new 1) rfl)
  have hstate : ((SpinLock.State.start (.start X86.sampleWorld)).setPc true
      (.attempting (.new 1))).setPc true (.waiting (.new 1)) =
        waitingState (.start X86.sampleWorld) := by
    refine congrArg (SpinLock.State.mk false · _) (funext fun t => ?_)
    cases t <;> rfl
  rw [hstate] at hfailed
  exact hfailed

theorem step_setWrapper {s s' : RustProcess w} {c : RustCall w} (h : s.step P c = some s') :
    ∃ world f, s' = s.setWrapper world c.name f := by
  cases c with
  | new i =>
    rw [RustProcess.step] at h
    split at h
    · cases h
      exact ⟨_, _, rfl⟩
    · cases h
  | on i d =>
    obtain ⟨f, -, hrest⟩ := Option.bind_eq_some_iff.mp h
    obtain ⟨o, -, hs'⟩ := Option.bind_eq_some_iff.mp hrest
    cases hs'
    exact ⟨_, _, rfl⟩
  | drop i os =>
    obtain ⟨f, -, hs'⟩ := Option.bind_eq_some_iff.mp h
    cases hs'
    exact ⟨_, _, rfl⟩

/-- The first thread makes a call on its wrapper while the second one waits. -/
theorem SampleWaits.call {cs : List (RustCall 64)} {s s' : RustProcess 64}
    (h : SampleWaits cs s) (c : RustCall 64) (hname : c.name = 0) (hchecked : Checked c s)
    (hcond : SampleCond s c) (hstep : RustProcessStep samplePlatform s c s') :
    SampleWaits (c :: cs) s' := by
  obtain ⟨es, hexec, hes⟩ := h
  obtain ⟨world, f, rfl⟩ := step_setWrapper hstep.2
  have howns : sampleOwner c.name = false := by
    rw [hname]
    rfl
  have hcalled := hexec.step (fun _ h => by cases h) (.call false c rfl howns hchecked)
  have hacquired := hcalled.step (e := (false, .acquire c)) (fun _ h => by cases h; exact hcond)
    (.acquire false c (State.setPc_self ..) rfl)
  have hcomputed := hacquired.step (fun _ h => by cases h)
    (.work false c _ _ _ (State.setPc_self ..) (.compute s world f hstep))
  have hstored := hcomputed.step (fun _ h => by cases h)
    (.work false c _ _ _ (State.setPc_self ..) (.store s world f))
  have hreleased := hstored.step (fun _ h => by cases h)
    (.release false c _ (State.setPc_self ..) rfl)
  have hstate : ∀ S : SpinLock.State Bool (RustProcess 64) (RustCall 64) (CopyPhase 64),
      S.pc true = .waiting (.new 1) → S.locked = false → S.shared = s.setWrapper world c.name f →
        S.setPc false .outside = waitingState (s.setWrapper world c.name f) := by
    rintro ⟨locked, pc, shared⟩ hpc rfl rfl
    refine congrArg (SpinLock.State.mk false · _) (funext fun t => ?_)
    cases t with
    | false => rfl
    | true => exact hpc
  rw [hstate _ rfl rfl rfl] at hreleased
  refine ⟨_, hreleased, ?_⟩
  simp only [completed_concat, hes, List.reverse_cons]
  simp [Act.released]

/-- The process after some calls, the last one first. -/
def processAfter : List (RustCall 64) → RustProcess 64
  | [] => .start X86.sampleWorld
  | c :: cs => ((processAfter cs).step samplePlatform c).getD (processAfter cs)

theorem sampleWaits_call {cs : List (RustCall 64)} (h : SampleWaits cs (processAfter cs))
    (c : RustCall 64) (hname : c.name = 0) (hchecked : Checked c (processAfter cs))
    (hcond : SampleCond (processAfter cs) c)
    (hfresh : ∀ i d, c = .on i d → d.Fresh samplePlatform (processAfter cs).world)
    (hstep : ((processAfter cs).step samplePlatform c).isSome = true) :
    SampleWaits (c :: cs) (processAfter (c :: cs)) := by
  obtain ⟨s', hs'⟩ := Option.isSome_iff_exists.mp hstep
  refine h.call c hname hchecked hcond ⟨hfresh, ?_⟩
  rw [processAfter, hs', Option.getD_some]

theorem checked_on {s : RustProcess w} {i : ℕ} {c : Call w}
    (h : (s.wrappers i).isSome = true) : Checked (.on i c) s := h

/-- The first wrapper is made, used to hook the function at `0x401000`, and dropped. -/
def sampleHooking : List (RustCall 64) :=
  [.drop 0 [], .on 0 (.uninstall []), .on 0 (.install []),
    .on 0 (.prepare 0x401000 0x402000 ⟨.ok 0x500000, .ok⟩), .new 0]

/-- The wrapper before it is dropped. -/
theorem sampleHooking_tail_waits :
    SampleWaits sampleHooking.tail (processAfter sampleHooking.tail) := by
  have hnew := sampleWaits_call sampleWaits_start (.new 0) rfl rfl
    ⟨trivial, findsOriginal_of_not_prepare fun _ _ hd => by cases hd⟩ (fun _ _ hd => by cases hd)
    (by decide +kernel)
  have hprepared := sampleWaits_call hnew (.on 0 (.prepare 0x401000 0x402000 ⟨.ok 0x500000, .ok⟩))
    rfl (checked_on (by decide +kernel)) ⟨⟨⟨_, rfl⟩, rfl⟩, fun _ _ _ _ _ _ _ _ _ _ _ _ _ _ => rfl⟩
    (fun _ _ hd => by cases hd; exact sample_fresh) (by decide +kernel)
  have hinstalled := sampleWaits_call hprepared (.on 0 (.install [])) rfl
    (checked_on (by decide +kernel))
    ⟨(fun _ h => by cases h), findsOriginal_of_not_prepare fun _ _ hd => by cases hd; rfl⟩
    (fun _ _ hd => by cases hd; trivial) (by decide +kernel)
  exact sampleWaits_call hinstalled (.on 0 (.uninstall [])) rfl
    (checked_on (by decide +kernel))
    ⟨(fun _ h => by cases h), findsOriginal_of_not_prepare fun _ _ hd => by cases hd; rfl⟩
    (fun _ _ hd => by cases hd; trivial) (by decide +kernel)

theorem sampleDrop_checked : Checked (.drop 0 []) (processAfter sampleHooking.tail) :=
  ⟨_, rfl, by decide +kernel⟩

theorem sampleDrop_cond : SampleCond (processAfter sampleHooking.tail) (.drop 0 []) :=
  ⟨(fun _ h => by cases h), findsOriginal_of_not_prepare fun _ _ hd => by cases hd⟩

theorem sampleHooking_waits : SampleWaits sampleHooking (processAfter sampleHooking) :=
  sampleWaits_call sampleHooking_tail_waits (.drop 0 []) rfl sampleDrop_checked sampleDrop_cond
    (fun _ _ hd => by cases hd) (by decide +kernel)

/-- The calls of the first thread have been made one at a time, while the second one has waited. -/
theorem control_serial_hooking :
    ∃ es, ((copySteps samplePlatform).system sampleOwner).Execution SampleCond
        (.start X86.sampleWorld) es (waitingState (processAfter sampleHooking)) ∧
      acquired es = completed es ∧ completed es = sampleHooking.reverse ∧
        Trace (RustProcessStep samplePlatform) (fun s c => Checked c s ∧ SampleCond s c)
          (.start X86.sampleWorld) (completed es) (processAfter sampleHooking) := by
  obtain ⟨es, hexec, hes⟩ := sampleHooking_waits
  obtain ⟨-, s, htrace, hshared, -⟩ := control_serial (copySteps samplePlatform) sampleOwner hexec
  obtain ⟨rfl, hacquired⟩ := hshared rfl
  exact ⟨es, hexec, hacquired, hes, htrace⟩

/-- The drop of the first thread, when it has the lock and when it is done. -/
theorem drops_destroy_hooking :
    DropDestroys samplePlatform (processAfter sampleHooking.tail) (.drop 0 []) ∧
      FlagsAgree (processAfter sampleHooking) := by
  constructor
  · obtain ⟨es, hexec, -⟩ := sampleHooking_tail_waits
    have hcalled := hexec.step (fun _ h => by cases h)
      (.call false (RustCall.drop 0 []) rfl rfl sampleDrop_checked)
    have hacquired := hcalled.step (e := (false, .acquire (RustCall.drop 0 [])))
      (fun _ h => by cases h; exact sampleDrop_cond)
      (.acquire false (RustCall.drop 0 []) (State.setPc_self ..) rfl)
    obtain ⟨s, -, -, -, hinside⟩ := drops_destroy (copySteps samplePlatform) sampleOwner hacquired
    obtain ⟨hbegun, hdestroys⟩ := hinside false _ _ (State.setPc_self ..)
    -- nothing of the drop is done yet
    rcases copy_partial hbegun with heq | ⟨_, _, -, heq | heq⟩
    · rw [← show processAfter sampleHooking.tail = s from congrArg Prod.fst heq] at hdestroys
      exact hdestroys
    · cases congrArg Prod.snd heq
    · cases congrArg Prod.snd heq
  · obtain ⟨es, hexec, -⟩ := sampleHooking_waits
    obtain ⟨s, hagree, -, hfree, -⟩ := drops_destroy (copySteps samplePlatform) sampleOwner hexec
    cases hfree rfl
    exact hagree

theorem threads_none_installed_original_hooking :
    (processAfter sampleHooking).world.bytes 0x401000 =
      (X86.sampleWorld : World 64).bytes 0x401000 := by
  obtain ⟨es, hexec, -⟩ := sampleHooking_waits
  refine threads_none_installed_original (copySteps samplePlatform) sampleOwner hexec rfl ?_ _
    (by decide +kernel)
  intro i f hf
  cases i with
  | zero => cases hf
  | succ i => cases hf

end Funchook
