import Funchook.HandleRun

/-!
# The Rust wrapper (`rust/lib.rs`)

`Funchook` owns a native handle and keeps a flag of its own, set by an install and cleared by an
uninstall that return `Ok`. Dropping it destroys the native handle unless the flag is set. The
two flags always agree, so what a drop frees is decided by the native one, which says nothing
about an install that stopped half-way: the entries it patched still jump into pages that the
drop unmaps. Runs in which no such install is left behind are safe.
-/

namespace Funchook

open ByteMemory Runs

variable {w : ℕ}

/-! ## Result codes -/

/-- `Error`. -/
inductive RustError where
  | internalError
  | outOfMemory
  | alreadyInstalled
  | disassembly
  | ipRelativeOffset
  | cannotFixIpRelative
  | foundBackJump
  | tooShortInstructions
  | memoryAllocation
  | memoryFunction
  | notInstalled
  | noAvailableRegisters
  | noSpaceNearTargetAddress
  | unknown (code : ErrorCode)
  deriving DecidableEq, Repr

/-- `Error::from_code`. -/
def RustError.fromCode (code : ErrorCode) : Option RustError :=
  if code = errorSuccess then none
  else if code = errorInternalError then some .internalError
  else if code = errorOutOfMemory then some .outOfMemory
  else if code = errorAlreadyInstalled then some .alreadyInstalled
  else if code = errorDisassembly then some .disassembly
  else if code = errorIpRelativeOffset then some .ipRelativeOffset
  else if code = errorCannotFixIpRelative then some .cannotFixIpRelative
  else if code = errorFoundBackJump then some .foundBackJump
  else if code = errorTooShortInstructions then some .tooShortInstructions
  else if code = errorMemoryAllocation then some .memoryAllocation
  else if code = errorMemoryFunction then some .memoryFunction
  else if code = errorNotInstalled then some .notInstalled
  else if code = errorNoAvailableRegisters then some .noAvailableRegisters
  else if code = errorNoSpaceNearTargetAddr then some .noSpaceNearTargetAddress
  else some (.unknown code)

/-- `Error::code`. -/
def RustError.code : RustError → ErrorCode
  | .internalError => errorInternalError
  | .outOfMemory => errorOutOfMemory
  | .alreadyInstalled => errorAlreadyInstalled
  | .disassembly => errorDisassembly
  | .ipRelativeOffset => errorIpRelativeOffset
  | .cannotFixIpRelative => errorCannotFixIpRelative
  | .foundBackJump => errorFoundBackJump
  | .tooShortInstructions => errorTooShortInstructions
  | .memoryAllocation => errorMemoryAllocation
  | .memoryFunction => errorMemoryFunction
  | .notInstalled => errorNotInstalled
  | .noAvailableRegisters => errorNoAvailableRegisters
  | .noSpaceNearTargetAddress => errorNoSpaceNearTargetAddr
  | .unknown code => code

theorem ite_some_code {code : ErrorCode} {p : Prop} [Decidable p] {a : RustError}
    {x : Option RustError} (ha : p → a.code = code) (hx : ∃ e, x = some e ∧ e.code = code) :
    ∃ e, (if p then some a else x) = some e ∧ e.code = code := by
  by_cases h : p
  · exact ⟨a, if_pos h, ha h⟩
  · rw [if_neg h]
    exact hx

/-- Every nonzero native code is an error, which gives the code back. -/
theorem fromCode_of_ne {code : ErrorCode} (h : code ≠ errorSuccess) :
    ∃ e, RustError.fromCode code = some e ∧ e.code = code := by
  rw [RustError.fromCode, if_neg h]
  repeat refine ite_some_code Eq.symm ?_
  exact ⟨_, rfl, rfl⟩

def result (code : ErrorCode) : Except RustError Unit :=
  match RustError.fromCode code with
  | none => .ok ()
  | some e => .error e

/-! ## The wrapper -/

/-- `Funchook`: the native handle and the flag of the wrapper. -/
structure RustFunchook (w : ℕ) where
  raw : FunchookT w
  installed : Bool

/-- What a method returns, with the wrapper and the process after it. -/
structure RustOutcome (w : ℕ) where
  result : Except RustError Unit
  funchook : RustFunchook w
  world : World w

/-- `Funchook::new`, on what `funchook_create` returns. -/
def RustFunchook.new : Option (FunchookT w) → Except RustError (RustFunchook w)
  | none => .error .outOfMemory
  | some raw => .ok ⟨raw, false⟩

variable (P : Platform w)

def RustFunchook.prepareWithParams (f : RustFunchook w) (s : World w) (targetFunc : Addr w)
    (params : FunchookParams w) (answer : AllocAnswer w) : Option (RustOutcome w) :=
  (funchookPrepareWithParams P f.raw s targetFunc params answer).map fun r =>
    ⟨result r.rv, { f with raw := r.fh }, r.world⟩

def RustFunchook.prepare (f : RustFunchook w) (s : World w) (targetFunc hookFunc : Addr w)
    (answer : AllocAnswer w) : Option (RustOutcome w) :=
  (funchookPrepare P f.raw s targetFunc hookFunc answer).map fun r =>
    ⟨result r.rv, { f with raw := r.fh }, r.world⟩

def RustFunchook.install (f : RustFunchook w) (s : World w) (os : List OsAnswer) : RustOutcome w :=
  let r := funchookInstallInternal P f.raw s os
  match result r.rv with
  | .error e => ⟨.error e, { f with raw := r.fh }, r.world⟩
  | .ok () => ⟨.ok (), ⟨r.fh, true⟩, r.world⟩

def RustFunchook.uninstall (f : RustFunchook w) (s : World w) (os : List OsAnswer) :
    RustOutcome w :=
  let r := funchookUninstallInternal P f.raw s os
  match result r.rv with
  | .error e => ⟨.error e, { f with raw := r.fh }, r.world⟩
  | .ok () => ⟨.ok (), ⟨r.fh, false⟩, r.world⟩

/-- `Drop::drop`; the result of `funchook_destroy` is ignored. -/
def RustFunchook.drop (f : RustFunchook w) (s : World w) (os : List OsAnswer) : World w :=
  if f.installed then s else (funchookDestroyInternal P f.raw s os).2

/-! ## Runs -/

def RustFunchook.call (f : RustFunchook w) (s : World w) : Call w → Option (RustOutcome w)
  | .prepare targetFunc hookFunc answer => f.prepare P s targetFunc hookFunc answer
  | .prepareWithParams targetFunc params answer => f.prepareWithParams P s targetFunc params answer
  | .install os => some (f.install P s os)
  | .uninstall os => some (f.uninstall P s os)

/-- The wrapper and the process. `halfInstalled` is no state of the program: it records that an
install failed after overwriting an entry, and that no uninstall has succeeded since. -/
structure RustState (w : ℕ) where
  funchook : RustFunchook w
  world : World w
  halfInstalled : Bool

/-- The wrapper that `Funchook::new` makes of a handle just created. -/
def RustState.start (s₀ : World w) : RustState w := ⟨⟨funchookCreate, false⟩, s₀, false⟩

theorem new_funchookCreate :
    RustFunchook.new (some (funchookCreate : FunchookT w)) = .ok ⟨funchookCreate, false⟩ := rfl

def RustState.nextHalf (st : RustState w) : Call w → Bool
  | .prepare .. => st.halfInstalled
  | .prepareWithParams .. => st.halfInstalled
  | .install os =>
    let reach := installReach st.funchook.raw.pageList os
    st.halfInstalled || (!st.funchook.raw.installed && reach.failed && !reach.done.isEmpty)
  | .uninstall os =>
    st.halfInstalled &&
      decide ((funchookUninstallInternal P st.funchook.raw st.world os).rv ≠ errorSuccess)

def RustState.step (st : RustState w) (c : Call w) : Option (RustState w) :=
  (st.funchook.call P st.world c).map fun o => ⟨o.funchook, o.world, st.nextHalf P c⟩

def RustStep (st : RustState w) (c : Call w) (st' : RustState w) : Prop :=
  c.Fresh P st.world ∧ st.step P c = some st'

/-- A drop either leaves the process alone, pages included, or leaves no code byte of a target
with anything but its value at the start of the run. -/
def DropSafe (s₀ : World w) (st : RustState w) (os : List OsAnswer) : Prop :=
  st.funchook.drop P st.world os = st.world ∨
    ∀ e ∈ st.funchook.raw.entries, ∀ a, P.TargetByte e a → s₀.mapped a = true →
      (st.funchook.drop P st.world os).bytes a = s₀.bytes a

/-- No prepare reads code while a half-done install is left behind. -/
def PreparesOriginal (st : RustState w) (c : Call w) : Prop :=
  c.isPrepare = true → st.halfInstalled = false

/-! ## The invariant -/

/-- The handle satisfies the invariant of its runs, and the two flags agree. -/
structure RustInv (s₀ : World w) (st : RustState w) : Prop where
  restore : RestoreInv P s₀ ⟨st.funchook.raw, st.world, st.halfInstalled⟩
  agree : st.funchook.installed = st.funchook.raw.installed

variable {P}

/-- The wrapper reports success exactly when the library does. -/
theorem result_ok_iff {code : ErrorCode} : result code = .ok () ↔ code = errorSuccess := by
  constructor
  · intro h
    by_contra hne
    obtain ⟨e, he, -⟩ := fromCode_of_ne hne
    rw [result, he] at h
    cases h
  · rintro rfl
    rfl

theorem rust_install_raw (f : RustFunchook w) (s : World w) (os : List OsAnswer) :
    (f.install P s os).funchook.raw = (funchookInstallInternal P f.raw s os).fh ∧
      (f.install P s os).world = (funchookInstallInternal P f.raw s os).world := by
  unfold RustFunchook.install
  dsimp only
  split <;> exact ⟨rfl, rfl⟩

theorem rust_uninstall_raw (f : RustFunchook w) (s : World w) (os : List OsAnswer) :
    (f.uninstall P s os).funchook.raw = (funchookUninstallInternal P f.raw s os).fh ∧
      (f.uninstall P s os).world = (funchookUninstallInternal P f.raw s os).world := by
  unfold RustFunchook.uninstall
  dsimp only
  split <;> exact ⟨rfl, rfl⟩

theorem rust_install_agree {f : RustFunchook w} (s : World w) (os : List OsAnswer)
    (h : f.installed = f.raw.installed) :
    (f.install P s os).funchook.installed = (f.install P s os).funchook.raw.installed := by
  unfold RustFunchook.install
  dsimp only
  cases hinst : f.raw.installed with
  | true =>
    rw [install_installed f.raw s os hinst]
    show f.installed = f.raw.installed
    exact h
  | false =>
    obtain ⟨-, -, -, ⟨-, hrv, hinst'⟩ | ⟨-, hrv, hinst'⟩⟩ := install_spec (P := P) f.raw s os hinst
    · rw [hrv]
      exact (h.trans hinst).trans hinst'.symm
    · rw [hrv]
      exact hinst'.symm

theorem rust_uninstall_agree {f : RustFunchook w} (s : World w) (os : List OsAnswer)
    (h : f.installed = f.raw.installed) :
    (f.uninstall P s os).funchook.installed = (f.uninstall P s os).funchook.raw.installed := by
  unfold RustFunchook.uninstall
  dsimp only
  cases hinst : f.raw.installed with
  | false =>
    rw [uninstall_not_installed f.raw s os hinst]
    show f.installed = f.raw.installed
    exact h
  | true =>
    obtain ⟨-, -, -, ⟨-, hrv, hinst'⟩ | ⟨-, hrv, hinst'⟩⟩ :=
      uninstall_spec (P := P) f.raw s os hinst
    · rw [hrv]
      exact (h.trans hinst).trans hinst'.symm
    · rw [hrv]
      exact hinst'.symm

theorem rustInv_prepare {s₀ : World w} {st : RustState w} (hinv : RustInv P s₀ st)
    (hd : st.halfInstalled = false) {targetFunc : Addr w} {params : FunchookParams w}
    {answer : AllocAnswer w} {r : PrepareResult w} (hfresh : answer.Fresh P st.world)
    (h : funchookPrepareInternal P st.funchook.raw st.world targetFunc params answer = some r) :
    RustInv P s₀ ⟨{ st.funchook with raw := r.fh }, r.world, st.halfInstalled⟩ where
  restore := hd ▸ restoreInv_prepare hinv.restore hd hfresh h
  agree := hinv.agree.trans (prepare_installed h).symm

/-- **Step.** Every call that reads original code keeps the invariant. -/
theorem rustInv_step {s₀ : World w} {st st' : RustState w} {c : Call w} (hinv : RustInv P s₀ st)
    (hcond : PreparesOriginal st c) (hstep : RustStep P st c st') : RustInv P s₀ st' := by
  obtain ⟨hfresh, hcall⟩ := hstep
  obtain ⟨o, ho, rfl⟩ := Option.map_eq_some_iff.mp hcall
  cases c with
  | prepare targetFunc hookFunc answer =>
    obtain ⟨r, hr, rfl⟩ := Option.map_eq_some_iff.mp ho
    exact rustInv_prepare hinv (hcond rfl) hfresh hr
  | prepareWithParams targetFunc params answer =>
    obtain ⟨r, hr, rfl⟩ := Option.map_eq_some_iff.mp ho
    exact rustInv_prepare hinv (hcond rfl) hfresh hr
  | install os =>
    cases ho
    obtain ⟨hraw, hworld⟩ := rust_install_raw (P := P) st.funchook st.world os
    refine ⟨?_, rust_install_agree st.world os hinv.agree⟩
    dsimp only
    rw [hraw, hworld]
    refine restoreInv_install_of_flag hinv.restore os fun hinst hflag => ?_
    rw [RustState.nextHalf, Bool.or_eq_false_iff, hinst] at hflag
    refine ⟨hflag.1, ?_⟩
    obtain ⟨-, -, -, ⟨hfailed, -, -⟩ | ⟨-, hrv, -⟩⟩ :=
      install_spec (P := P) st.funchook.raw st.world os hinst
    · have hnil := hflag.2
      rw [hfailed] at hnil
      exact Or.inr (by simpa using hnil)
    · exact Or.inl hrv
  | uninstall os =>
    cases ho
    obtain ⟨hraw, hworld⟩ := rust_uninstall_raw (P := P) st.funchook st.world os
    refine ⟨?_, rust_uninstall_agree st.world os hinv.agree⟩
    dsimp only
    rw [hraw, hworld]
    exact restoreInv_uninstall hinv.restore os

/-- **Run.** Every state of such a run satisfies the invariant. -/
theorem rustInv_run {s₀ : World w} {st : RustState w}
    (hrun : Run (RustStep P) PreparesOriginal (.start s₀) st) : RustInv P s₀ st :=
  hrun.invariant ⟨restoreInv_start P s₀, rfl⟩ fun _ _ _ hinv hcond hstep =>
    rustInv_step hinv hcond hstep

/-- **Drop.** In a run whose prepares all read original code, a drop is safe unless an install
that stopped half-way is left behind and the handle does not count as installed. -/
theorem drop_safe {s₀ : World w} {st : RustState w} 
    (hrun : Run (RustStep P) PreparesOriginal (.start s₀) st)
    (hleft : st.halfInstalled = true → st.funchook.installed = true) (os : List OsAnswer) :
    DropSafe P s₀ st os := by
  have hinv := rustInv_run hrun
  cases hinst : st.funchook.installed with
  | true => exact Or.inl (by rw [RustFunchook.drop, hinst]; rfl)
  | false =>
    have hhalf : st.halfInstalled = false := by
      cases hhalf : st.halfInstalled with
      | false => rfl
      | true => rw [hleft hhalf] at hinst; cases hinst
    refine Or.inr fun e _ a _ ha => ?_
    have hraw : st.funchook.raw.installed = false := hinv.agree.symm.trans hinst
    rw [RustFunchook.drop, hinst, destroy_not_installed _ _ os hraw]
    show (freePages P _ _ os).bytes a = s₀.bytes a
    rw [freePages_bytes]
    exact hinv.restore.clean hraw hhalf a ha

/-- The sample function, hooked through a wrapper by a function out of reach of its jump. -/
def sampleRustPrepare : Call 64 := .prepare 0x401000 0x7fff00000000 ⟨.ok 0x500000, .ok⟩

def sampleRustPrepared : RustState 64 :=
  ((RustState.start X86.sampleWorld).step samplePlatform sampleRustPrepare).get
    (by decide +kernel)

/-- An install has returned an error after the function was overwritten. -/
def sampleRustHalfInstalled : RustState 64 :=
  (sampleRustPrepared.step samplePlatform (.install [.ok, .ok, .fail "mprotect"])).get
    (by decide +kernel)

theorem sampleRust_run {cond : RustState 64 → Call 64 → Prop}
    (hprepare : cond (.start X86.sampleWorld) sampleRustPrepare)
    (hinstall : ∀ st os, cond st (.install os)) :
    Run (RustStep samplePlatform) cond (.start X86.sampleWorld) sampleRustHalfInstalled :=
  .call (.call .start sampleRustPrepare hprepare ⟨sample_fresh, rfl⟩) _ (hinstall _ _)
    ⟨trivial, rfl⟩

theorem drop_safe_sample :
    let st := ((sampleRustHalfInstalled.step samplePlatform (.install [])).bind
      fun st => st.step samplePlatform (.uninstall [])).get (by decide +kernel)
    DropSafe samplePlatform X86.sampleWorld st [] := by
  intro st
  have hhalf := @sampleRust_run PreparesOriginal (fun _ => rfl) fun _ _ h => by cases h
  have hinstalled := hhalf.call (.install []) (fun h => by cases h) ⟨trivial, rfl⟩
  have hrun : Run (RustStep samplePlatform) PreparesOriginal (.start X86.sampleWorld) st :=
    hinstalled.call (.uninstall []) (fun h => by cases h) ⟨trivial, rfl⟩
  exact drop_safe hrun (fun h => absurd h (by decide +kernel)) []

/-- Dropped after a half-done install, the wrapper leaves the function with a jump to an address
that the drop has unmapped. -/
theorem drop_not_safe :
    ∃ st, Run (RustStep samplePlatform) (fun _ _ => True) (.start X86.sampleWorld) st ∧
      ¬ DropSafe samplePlatform X86.sampleWorld st [] ∧
      (st.funchook.drop samplePlatform st.world []).bytes 0x401000 = 0xe9 ∧
      (st.funchook.drop samplePlatform st.world []).mapped
        (0x401005 + (readWord 4 (st.funchook.drop samplePlatform st.world []).bytes 0x401001 :
          BitVec 32).signExtend 64) = false := by
  refine ⟨sampleRustHalfInstalled, sampleRust_run trivial fun _ _ => trivial, ?_,
    by decide +kernel, by decide +kernel⟩
  rintro (hsame | hbytes)
  · have hmapped := congrFun (congrArg World.mapped hsame) 0x500010
    revert hmapped
    decide +kernel
  · have hbyte := hbytes (sampleRustHalfInstalled.funchook.raw.entries.head (by decide +kernel))
      (List.head_mem _) 0x401000 (by decide +kernel) (by decide +kernel)
    revert hbyte
    decide +kernel

end Funchook
