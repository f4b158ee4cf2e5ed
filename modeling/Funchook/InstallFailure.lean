import Funchook.HandleRun

/-!
# What a failing install leaves behind

`funchook_install_internal` returns at the first failing call of the memory layer, and has no
path that puts back the entries patched before it. So an install that fails is without effect
exactly when the entries it reached hold their new code already, in particular when it reached
none. A later uninstall is refused, because `installed` was never set.
-/

namespace Funchook

open ByteMemory

variable {w : ℕ}

/-- A failed install leaves the code bytes of every target and `installed` as they were. -/
def InstallAtomic (P : Platform w) (fh : FunchookT w) (s : World w) (os : List OsAnswer) : Prop :=
  let r := funchookInstallInternal P fh s os
  r.rv ≠ errorSuccess →
    (∀ e ∈ fh.entries, ∀ a, P.TargetByte e a → r.world.bytes a = s.bytes a) ∧
      r.fh.installed = fh.installed

/-- The entries that come before the failing call, if a call fails, have been patched before: the
last of them to cover an address puts there the byte that is there. -/
def ReachedEntriesInPlace (P : Platform w) (fh : FunchookT w) (s : World w) (os : List OsAnswer) :
    Prop :=
  (installReach fh.pageList os).failed = true →
    ∀ a b, lastWrite ((installReach fh.pageList os).done.map P.newPatch) a = some b →
      s.bytes a = b

variable {P : Platform w}

theorem reachedEntriesInPlace_of_nil {fh : FunchookT w} {s : World w} {os : List OsAnswer}
    (h : (installReach fh.pageList os).done = []) : ReachedEntriesInPlace P fh s os := by
  intro _ a b hb
  rw [h] at hb
  cases hb

/-- A byte that a patched entry covers is one of the code bytes of its target. -/
theorem targetByte_of_lastWrite {fh : FunchookT w} {os : List OsAnswer} {a : Addr w} {b : Byte}
    (h : lastWrite ((installReach fh.pageList os).done.map P.newPatch) a = some b) :
    ∃ e ∈ fh.entries, P.TargetByte e a := by
  obtain ⟨p, hp, hb⟩ := lastWrite_mem h
  obtain ⟨e, he, rfl⟩ := List.mem_map.mp hp
  exact ⟨e, (installReach_prefix_entries _ _).subset he,
    newPatch_covers (Patch.byteAt_isSome.mp (by rw [hb]; rfl))⟩

/-- **When install is atomic.** A handle that is installed already is refused without effect; any
other install is atomic if and only if the entries before the failing call are in place. -/
theorem install_atomic_iff (fh : FunchookT w) (s : World w) (os : List OsAnswer) :
    InstallAtomic P fh s os ↔ fh.installed = true ∨ ReachedEntriesInPlace P fh s os := by
  unfold InstallAtomic
  dsimp only
  cases hinst : fh.installed with
  | true =>
    rw [install_installed fh s os hinst]
    exact ⟨fun _ => Or.inl rfl, fun _ _ => ⟨fun _ _ _ _ => rfl, hinst⟩⟩
  | false =>
    obtain ⟨hb, -, -, hcase⟩ := install_spec (P := P) fh s os hinst
    constructor
    · intro hatomic
      refine Or.inr fun hfailed a b hlast => ?_
      rcases hcase with ⟨-, hrv, -⟩ | ⟨hok, -, -⟩
      · obtain ⟨e, he, ha⟩ := targetByte_of_lastWrite hlast
        have hkept := (hatomic (by rw [hrv]; decide)).1 e he a ha
        rw [hb, writeAll_apply, hlast, Option.getD_some] at hkept
        exact hkept.symm
      · rw [hok] at hfailed
        cases hfailed
    · rintro (h | hplace) hrv
      · cases h
      · rcases hcase with ⟨hfailed, -, hinst'⟩ | ⟨-, hrv', -⟩
        · refine ⟨fun e _ a _ => ?_, hinst'⟩
          rw [hb, writeAll_apply]
          cases hlast : lastWrite ((installReach fh.pageList os).done.map P.newPatch) a with
          | none => rfl
          | some b => exact (hplace hfailed a b hlast).symm
        · exact absurd hrv' hrv

/-- The one entry of the sample handle. -/
def sampleEntry : FunchookEntry 64 := sampleHandle.fh.entries.head (by decide +kernel)

/-- An install that fails in `funchook_unprotect_end` leaves the jump in the function. -/
theorem install_not_atomic :
    ¬ InstallAtomic samplePlatform sampleHandle.fh sampleHandle.world
      [.ok, .ok, .fail "mprotect"] := by
  intro h
  have hkept := (h (by decide +kernel)).1 sampleEntry (List.head_mem _) 0x401000 (by decide +kernel)
  revert hkept
  decide +kernel

end Funchook
