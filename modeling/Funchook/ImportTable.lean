import Funchook.Internal

/-!
# The import table of a module (`os_windows.c`)

`funchook_resolve_func` of the Windows build looks a slot up in the import table of the module that
an address belongs to. The table is read from the headers of the module, up to a null name and null
functions. When the slot is there, the function in it is hooked in place of the thunk that jumps
through it. Which slot a thunk jumps through is found out for each processor on its own.
-/

namespace Funchook.Windows

open ByteMemory

variable {w : ℕ}

/-! ## The search -/

/-- `sizeof(IMAGE_THUNK_DATA)` -/
def thunkSize (w : ℕ) : ℕ := w / 8

/-- `sizeof(IMAGE_IMPORT_DESCRIPTOR)` -/
def importDescriptorSize : ℕ := 20

/-- Offset of the import directory from the start of `IMAGE_NT_HEADERS`. -/
def importDirectoryOffset (w : ℕ) : ℕ := 4 + 20 + (if w = 32 then 96 else 112) + 8

/-- A `DWORD` at an offset, as a `size_t`. -/
def dwordAt (m : Mem w) (a : Addr w) (off : ℕ) : BitVec w :=
  (readWord 4 m (a + BitVec.ofNat w off) : BitVec 32).setWidth w

/-- `desc->Name` -/
def nameOf (m : Mem w) (desc : Addr w) : BitVec w := dwordAt m desc 12

/-- The address of the first thunk of a descriptor. -/
def firstThunk (m : Mem w) (hMod desc : Addr w) : Addr w := hMod + dwordAt m desc 16

variable (m : Mem w)

def getImageImportDescriptor (hMod : Addr w) : Option (Addr w) :=
  if m hMod ≠ 0x4d ∨ m (hMod + 1) ≠ 0x5a then none
  else
    let nthdr := hMod + (readWord 4 m (hMod + BitVec.ofNat w 0x3c) : BitVec 32).signExtend w
    let virtualAddress := dwordAt m nthdr (importDirectoryOffset w)
    if virtualAddress = 0 then none else some (hMod + virtualAddress)

/-- The inner loop, `none` when it has not ended after `fuel` rounds. -/
def findThunk (pos : Addr w) : ℕ → Addr w → Option (Option (Addr w))
  | 0, _ => none
  | fuel + 1, addrThunk =>
    let function := readPtr m addrThunk
    if function = 0 then some none
    else if pos = addrThunk then some (some function)
    else findThunk pos fuel (addrThunk + BitVec.ofNat w (thunkSize w))

/-- The outer loop. -/
def findImport (hMod pos : Addr w) : ℕ → Addr w → Option (Option (Addr w))
  | 0, _ => none
  | fuel + 1, desc =>
    if nameOf m desc = 0 then some none
    else
      match findThunk m pos fuel (firstThunk m hMod desc) with
      | some none => findImport hMod pos fuel (desc + BitVec.ofNat w importDescriptorSize)
      | found => found

/-- `funchook_resolve_func` for `pos`, from the module that `GetModuleHandleEx` finds for an
address; `none` when the loops have not ended after `fuel` rounds. -/
def resolveImport (moduleOf : Addr w → Option (Addr w)) (fuel : ℕ) (pos func : Addr w) :
    Option (Addr w) :=
  if pos = 0 then some func
  else
    match moduleOf func with
    | none => some func
    | some hMod =>
      match getImageImportDescriptor m hMod with
      | none => some func
      | some descHead => (findImport m hMod pos fuel descHead).map (·.getD func)

/-! ## Slots of the table -/

variable {m}

/-- `pos` is one of the thunks from an address on, up to the null one. -/
inductive IsThunk (m : Mem w) (pos : Addr w) : Addr w → Prop
  | here : readPtr m pos ≠ 0 → IsThunk m pos pos
  | later {a : Addr w} : readPtr m a ≠ 0 →
      IsThunk m pos (a + BitVec.ofNat w (thunkSize w)) → IsThunk m pos a

/-- There is a null thunk from an address on. -/
inductive ThunksEnd (m : Mem w) : Addr w → Prop
  | null {a : Addr w} : readPtr m a = 0 → ThunksEnd m a
  | next {a : Addr w} : ThunksEnd m (a + BitVec.ofNat w (thunkSize w)) → ThunksEnd m a

/-- `pos` is a thunk of one of the descriptors from an address on, up to the one without name. -/
inductive IsImportSlot (m : Mem w) (hMod pos : Addr w) : Addr w → Prop
  | here {desc : Addr w} : nameOf m desc ≠ 0 → IsThunk m pos (firstThunk m hMod desc) →
      IsImportSlot m hMod pos desc
  | later {desc : Addr w} : nameOf m desc ≠ 0 →
      IsImportSlot m hMod pos (desc + BitVec.ofNat w importDescriptorSize) →
        IsImportSlot m hMod pos desc

/-- There is a descriptor without name from an address on, and those before it have null thunks. -/
inductive ImportsEnd (m : Mem w) (hMod : Addr w) : Addr w → Prop
  | null {desc : Addr w} : nameOf m desc = 0 → ImportsEnd m hMod desc
  | next {desc : Addr w} : ThunksEnd m (firstThunk m hMod desc) →
      ImportsEnd m hMod (desc + BitVec.ofNat w importDescriptorSize) →
        ImportsEnd m hMod desc

/-- There is a slot, and it is in the import table of the module of the function. -/
def ImportedAt (moduleOf : Addr w → Option (Addr w)) (m : Mem w) (pos func : Addr w) : Prop :=
  pos ≠ 0 ∧ ∃ hMod desc, moduleOf func = some hMod ∧
    getImageImportDescriptor m hMod = some desc ∧ IsImportSlot m hMod pos desc

/-- What a search leads to: the function in the slot, or nothing. -/
def Found (slot : Prop) (function : Addr w) (r : Option (Addr w)) : Prop :=
  slot ∧ r = some function ∨ ¬ slot ∧ r = none

theorem IsThunk.readPtr_ne {pos a : Addr w} (h : IsThunk m pos a) : readPtr m a ≠ 0 := by
  cases h with
  | here hne => exact hne
  | later hne _ => exact hne

theorem IsImportSlot.nameOf_ne {hMod pos desc : Addr w} (h : IsImportSlot m hMod pos desc) :
    nameOf m desc ≠ 0 := by
  cases h with
  | here hne _ => exact hne
  | later hne _ => exact hne

/-- A null thunk ends the inner loop. -/
theorem findThunk_null (pos : Addr w) {a : Addr w} (h : readPtr m a = 0) :
    ∃ r rounds, (∀ fuel, rounds ≤ fuel → findThunk m pos fuel a = some r) ∧
      Found (IsThunk m pos a) (readPtr m pos) r := by
  refine ⟨none, 1, fun fuel hfuel => ?_, Or.inr ⟨fun hthunk => hthunk.readPtr_ne h, rfl⟩⟩
  obtain ⟨fuel, rfl⟩ := Nat.exists_eq_add_of_le' hfuel
  exact if_pos h

/-- **The inner loop** finds the slot among the thunks. -/
theorem findThunk_found (pos : Addr w) {a : Addr w} (hend : ThunksEnd m a) :
    ∃ r rounds, (∀ fuel, rounds ≤ fuel → findThunk m pos fuel a = some r) ∧
      Found (IsThunk m pos a) (readPtr m pos) r := by
  induction hend with
  | null hnull => exact findThunk_null pos hnull
  | @next a _ ih =>
    by_cases hnull : readPtr m a = 0
    · exact findThunk_null pos hnull
    obtain ⟨r, rounds, hrounds, hfound⟩ := ih
    have hround : ∀ fuel, findThunk m pos (fuel + 1) a =
        if pos = a then some (some (readPtr m a))
        else findThunk m pos fuel (a + BitVec.ofNat w (thunkSize w)) :=
      fun fuel => if_neg hnull
    by_cases hpos : pos = a
    · subst hpos
      refine ⟨some (readPtr m pos), 1, fun fuel hfuel => ?_, Or.inl ⟨.here hnull, rfl⟩⟩
      obtain ⟨fuel, rfl⟩ := Nat.exists_eq_add_of_le' hfuel
      rw [hround, if_pos rfl]
    · refine ⟨r, rounds + 1, fun fuel hfuel => ?_, ?_⟩
      · obtain ⟨fuel, rfl⟩ := Nat.exists_eq_add_of_le' (Nat.le_trans (Nat.le_add_left 1 _) hfuel)
        rw [hround, if_neg hpos]
        exact hrounds fuel (by omega)
      · rcases hfound with ⟨hthunk, hr⟩ | ⟨hthunk, hr⟩
        · exact Or.inl ⟨.later hnull hthunk, hr⟩
        · refine Or.inr ⟨fun h => ?_, hr⟩
          cases h with
          | here _ => exact hpos rfl
          | later _ hlater => exact hthunk hlater

/-- A descriptor without name ends the outer loop. -/
theorem findImport_null (hMod pos : Addr w) {desc : Addr w} (h : nameOf m desc = 0) :
    ∃ r rounds, (∀ fuel, rounds ≤ fuel → findImport m hMod pos fuel desc = some r) ∧
      Found (IsImportSlot m hMod pos desc) (readPtr m pos) r := by
  refine ⟨none, 1, fun fuel hfuel => ?_, Or.inr ⟨fun hslot => hslot.nameOf_ne h, rfl⟩⟩
  obtain ⟨fuel, rfl⟩ := Nat.exists_eq_add_of_le' hfuel
  exact if_pos h

/-- **The outer loop** finds the slot in the table. -/
theorem findImport_found (hMod pos : Addr w) {desc : Addr w}
    (hend : ImportsEnd m hMod desc) :
    ∃ r rounds, (∀ fuel, rounds ≤ fuel → findImport m hMod pos fuel desc = some r) ∧
      Found (IsImportSlot m hMod pos desc) (readPtr m pos) r := by
  induction hend with
  | null hnull => exact findImport_null hMod pos hnull
  | @next desc hthunks _ ih =>
    by_cases hnull : nameOf m desc = 0
    · exact findImport_null hMod pos hnull
    obtain ⟨r₁, rounds₁, hrounds₁, hfound₁⟩ := findThunk_found pos hthunks
    obtain ⟨r₂, rounds₂, hrounds₂, hfound₂⟩ := ih
    have hround : ∀ fuel, rounds₁ ≤ fuel → findImport m hMod pos (fuel + 1) desc =
        match (some r₁ : Option (Option (Addr w))) with
        | some none =>
          findImport m hMod pos fuel (desc + BitVec.ofNat w importDescriptorSize)
        | found => found := fun fuel hfuel => by
      rw [findImport, if_neg hnull, hrounds₁ fuel hfuel]
    rcases hfound₁ with ⟨hthunk, rfl⟩ | ⟨hthunk, rfl⟩
    · refine ⟨some (readPtr m pos), rounds₁ + 1, fun fuel hfuel => ?_,
        Or.inl ⟨.here hnull hthunk, rfl⟩⟩
      obtain ⟨fuel, rfl⟩ := Nat.exists_eq_add_of_le' (Nat.le_trans (Nat.le_add_left 1 _) hfuel)
      exact hround fuel (by omega)
    · refine ⟨r₂, rounds₁ + rounds₂ + 1, fun fuel hfuel => ?_, ?_⟩
      · obtain ⟨fuel, rfl⟩ := Nat.exists_eq_add_of_le' (Nat.le_trans (Nat.le_add_left 1 _) hfuel)
        rw [hround fuel (by omega)]
        exact hrounds₂ fuel (by omega)
      · rcases hfound₂ with ⟨hslot, hr⟩ | ⟨hslot, hr⟩
        · exact Or.inl ⟨.later hnull hslot, hr⟩
        · refine Or.inr ⟨fun h => ?_, hr⟩
          cases h with
          | here _ hhere => exact hthunk hhere
          | later _ hlater => exact hslot hlater

/-- **The search** ends with the function in the import slot, or with the function itself. -/
theorem resolveImport_found {moduleOf : Addr w → Option (Addr w)} (pos : Addr w) {func : Addr w}
    (hends : ∀ hMod desc, moduleOf func = some hMod →
      getImageImportDescriptor m hMod = some desc → ImportsEnd m hMod desc) :
    ∃ f rounds, (∀ fuel, rounds ≤ fuel → resolveImport m moduleOf fuel pos func = some f) ∧
      (ImportedAt moduleOf m pos func ∧ f = readPtr m pos ∨
        ¬ ImportedAt moduleOf m pos func ∧ f = func) := by
  unfold resolveImport
  by_cases hzero : pos = 0
  · exact ⟨func, 0, fun _ _ => if_pos hzero, Or.inr ⟨fun h => h.1 hzero, rfl⟩⟩
  simp only [if_neg hzero]
  cases hmodule : moduleOf func with
  | none =>
    refine ⟨func, 0, fun _ _ => rfl, Or.inr ⟨?_, rfl⟩⟩
    rintro ⟨-, hMod, desc, hsome, -⟩
    rw [hmodule] at hsome
    cases hsome
  | some hMod =>
    cases hhead : getImageImportDescriptor m hMod with
    | none =>
      refine ⟨func, 0, fun fuel _ => by simp only [hhead], Or.inr ⟨?_, rfl⟩⟩
      rintro ⟨-, hMod', desc, hsome, hdesc, -⟩
      rw [hmodule] at hsome
      obtain rfl := Option.some.inj hsome
      rw [hhead] at hdesc
      cases hdesc
    | some desc =>
      obtain ⟨r, rounds, hrounds, hfound⟩ :=
        findImport_found hMod pos (hends hMod desc hmodule hhead)
      refine ⟨r.getD func, rounds, fun fuel hfuel => ?_, ?_⟩
      · simp only [hhead, hrounds fuel hfuel, Option.map_some]
      rcases hfound with ⟨hslot, rfl⟩ | ⟨hslot, rfl⟩
      · exact Or.inl ⟨⟨hzero, hMod, desc, hmodule, hhead, hslot⟩, rfl⟩
      · refine Or.inr ⟨?_, rfl⟩
        rintro ⟨-, hMod', desc', hsome, hdesc, hslot'⟩
        rw [hmodule] at hsome
        obtain rfl := Option.some.inj hsome
        rw [hhead] at hdesc
        obtain rfl := Option.some.inj hdesc
        exact hslot hslot'

end Funchook.Windows
