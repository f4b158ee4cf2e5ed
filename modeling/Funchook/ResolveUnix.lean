import Funchook.Lib.Loop
import Funchook.Lib.Ia32
import Funchook.OsUnix
import Mathlib.Data.List.MinMax

/-!
# Stubs of an executable (`os_unix.c` with glibc)

In a program that is not position independent the address of a function of a shared library may be
that of a stub of the program. `funchook_resolve_func` looks for it in the dynamic symbols of the
lowest loaded module: a stub is a function symbol without a size, and the definition that `dlsym`
finds under its name is hooked in its place. The symbols end where the string table starts, and the
list of loaded modules is data.
-/

namespace Funchook.Unix

open ByteMemory

/-! ## ELF records -/

/-- The two sizes of `ElfW` types. -/
inductive ElfClass where
  | elf32
  | elf64
  deriving DecidableEq, Repr

namespace ElfClass

def bits : ElfClass → ℕ
  | elf32 => 32
  | elf64 => 64

/-- `sizeof(ElfW(Dyn))` -/
def dynSize : ElfClass → ℕ
  | elf32 => 8
  | elf64 => 16

/-- `sizeof(ElfW(Sym))` -/
def symSize : ElfClass → ℕ
  | elf32 => 16
  | elf64 => 24

/-- Offsets of `st_info`, `st_value` and `st_size`; `st_name` comes first. -/
def stInfo : ElfClass → ℕ
  | elf32 => 12
  | elf64 => 4

def stValue : ElfClass → ℕ
  | elf32 => 4
  | elf64 => 8

def stSize : ElfClass → ℕ
  | elf32 => 8
  | elf64 => 16

end ElfClass

/-- The members of a `struct link_map` that are read. -/
structure LinkMap (w : ℕ) where
  lAddr : Addr w
  lLd : Addr w
  deriving DecidableEq, Repr

/-- The variables that the loop over the dynamic section sets. -/
structure Tables (w : ℕ) where
  symtab : Addr w
  strtab : Addr w
  strtabSize : Addr w
  deriving DecidableEq, Repr

/-- `RTLD_DEFAULT` and `RTLD_NEXT` -/
inductive Handle where
  | default
  | next
  deriving DecidableEq, Repr

variable (cls : ElfClass) (m : Mem cls.bits)

/-! ## The module -/

section Modules

variable {w : ℕ}

/-- One round of the loop over the loaded modules. -/
def considerModule (func : Addr w) (lmap : Option (LinkMap w)) (lm : LinkMap w) :
    Option (LinkMap w) :=
  if lm.lAddr ≤ func then
    match lmap with
    | none => some lm
    | some best => if lm.lAddr < best.lAddr then some lm else some best
  else lmap

def findModule (func : Addr w) (modules : List (LinkMap w)) : Option (LinkMap w) :=
  modules.foldl (considerModule func) none

/-- The checks of the ELF header at an address: `ELFMAG`, then `ET_EXEC` or `ET_DYN`. -/
def IsElfModule (m : Mem w) (a : Addr w) : Prop :=
  readBytes m a 4 = [0x7f, 0x45, 0x4c, 0x46] ∧
    ((readWord 2 m (a + 16) : BitVec 16) = 2 ∨ (readWord 2 m (a + 16) : BitVec 16) = 3)

instance (m : Mem w) (a : Addr w) : Decidable (IsElfModule m a) :=
  inferInstanceAs (Decidable (_ ∧ (_ ∨ _)))

end Modules

/-! ## The dynamic section -/

def dtNull : Addr cls.bits := 0
def dtStrtab : Addr cls.bits := 5
def dtSymtab : Addr cls.bits := 6
def dtStrsz : Addr cls.bits := 10

/-- `dyn[i].d_tag` -/
def dTag (dyn : Addr cls.bits) (i : ℕ) : Addr cls.bits :=
  readPtr m (dyn + BitVec.ofNat cls.bits (i * cls.dynSize))

/-- `dyn[i].d_un` -/
def dUn (dyn : Addr cls.bits) (i : ℕ) : Addr cls.bits :=
  readPtr m (dyn + BitVec.ofNat cls.bits (i * cls.dynSize + cls.bits / 8))

/-- The `switch`. -/
def setTable (t : Tables cls.bits) (tag value : Addr cls.bits) : Tables cls.bits :=
  if tag = dtSymtab cls then { t with symtab := value }
  else if tag = dtStrtab cls then { t with strtab := value }
  else if tag = dtStrsz cls then { t with strtabSize := value }
  else t

def dynamicRound (dyn : Addr cls.bits) :
    ℕ × Tables cls.bits → Tables cls.bits ⊕ (ℕ × Tables cls.bits)
  | (i, t) =>
    if dTag cls m dyn i = dtNull cls then .inl t
    else .inr (i + 1, setTable cls t (dTag cls m dyn i) (dUn cls m dyn i))

/-! ## The symbols -/

/-- `st_name`, as a `size_t`. -/
def stName (sym : Addr cls.bits) : Addr cls.bits := (readWord 4 m sym : BitVec 32).setWidth cls.bits

/-- The symbol of a stub at `func`: `STT_FUNC`, without a size. -/
def IsStub (func sym : Addr cls.bits) : Prop :=
  m (sym + BitVec.ofNat cls.bits cls.stInfo) &&& 0xf = 2 ∧
    readPtr m (sym + BitVec.ofNat cls.bits cls.stSize) = 0 ∧
      readPtr m (sym + BitVec.ofNat cls.bits cls.stValue) = func

instance (func sym : Addr cls.bits) : Decidable (IsStub cls m func sym) :=
  inferInstanceAs (Decidable (_ ∧ _ ∧ _))

/-- The loop over the symbols; it is left with the name of a stub. -/
def symbolRound (t : Tables cls.bits) (func sym : Addr cls.bits) :
    Option (Addr cls.bits) ⊕ Addr cls.bits :=
  if sym < t.strtab then
    if t.strtabSize ≤ stName cls m sym then .inl none
    else if IsStub cls m func sym then .inl (some (t.strtab + stName cls m sym))
    else .inr (sym + BitVec.ofNat cls.bits cls.symSize)
  else .inl none

/-- The function that is hooked in place of a stub: what `dlsym` finds under the name. -/
def definitionOf {w : ℕ} (dlsym : Handle → Addr w → Addr w) (func name : Addr w) : Addr w :=
  let fn := dlsym .default name
  let fn := if fn = func then dlsym .next name else fn
  if fn ≠ 0 then fn else func

/-- `funchook_resolve_func`, `none` when a loop has not ended after `fuel` rounds. -/
def unixResolveFunc (modules : List (LinkMap cls.bits))
    (dlsym : Handle → Addr cls.bits → Addr cls.bits) (fuel : ℕ) (func : Addr cls.bits) :
    Option (Addr cls.bits) :=
  match findModule func modules with
  | none => some func
  | some lmap =>
    if lmap.lAddr ≠ 0 ∧ ¬ IsElfModule m lmap.lAddr then some func
    else
      (Loops.run (dynamicRound cls m lmap.lLd) fuel (0, ⟨0, 0, 0⟩)).bind fun t =>
        (Loops.run (symbolRound cls m t func) fuel t.symtab).map fun name =>
          name.elim func (definitionOf dlsym func)

/-! ## The lowest module -/

/-- The first of the lowest modules that do not start behind the function. -/
def lowestModule {w : ℕ} (func : Addr w) (modules : List (LinkMap w)) : Option (LinkMap w) :=
  (modules.filter fun lm => lm.lAddr ≤ func).argmin fun lm => lm.lAddr.toNat

theorem findModule_eq {w : ℕ} (func : Addr w) (modules : List (LinkMap w)) :
    findModule func modules = lowestModule func modules := by
  rw [findModule, lowestModule, List.argmin, List.foldl_filter]
  congr 1
  funext lmap lm
  simp only [considerModule, decide_eq_true_eq]
  cases lmap <;> rfl

/-! ## The loops -/

variable {cls} {m}

/-- The last of `n` entries of the dynamic section that has a tag. -/
def lastEntry (cls : ElfClass) (m : Mem cls.bits) (dyn : Addr cls.bits) (n : ℕ)
    (tag : Addr cls.bits) : Option ℕ :=
  (List.range n).reverse.find? fun i => dTag cls m dyn i = tag

/-- What `n` entries of the dynamic section say of a table, zero without an entry. -/
def tableOf (cls : ElfClass) (m : Mem cls.bits) (dyn : Addr cls.bits) (n : ℕ)
    (tag : Addr cls.bits) : Addr cls.bits :=
  ((lastEntry cls m dyn n tag).map (dUn cls m dyn)).getD 0

def tablesOf (cls : ElfClass) (m : Mem cls.bits) (dyn : Addr cls.bits) (n : ℕ) : Tables cls.bits :=
  ⟨tableOf cls m dyn n (dtSymtab cls), tableOf cls m dyn n (dtStrtab cls),
    tableOf cls m dyn n (dtStrsz cls)⟩

/-- The dynamic section has `n` entries before `DT_NULL`. -/
def HasEntries (cls : ElfClass) (m : Mem cls.bits) (dyn : Addr cls.bits) (n : ℕ) : Prop :=
  dTag cls m dyn n = dtNull cls ∧ ∀ i < n, dTag cls m dyn i ≠ dtNull cls

theorem tableOf_succ (dyn : Addr cls.bits) (n : ℕ) (tag : Addr cls.bits) :
    tableOf cls m dyn (n + 1) tag =
      if dTag cls m dyn n = tag then dUn cls m dyn n else tableOf cls m dyn n tag := by
  rw [tableOf, lastEntry, List.range_succ, List.reverse_append, List.reverse_singleton,
    List.singleton_append, List.find?_cons]
  by_cases htag : dTag cls m dyn n = tag
  · simp [htag]
  · simp [htag, tableOf, lastEntry]

theorem setTable_tablesOf (dyn : Addr cls.bits) (n : ℕ) :
    setTable cls (tablesOf cls m dyn n) (dTag cls m dyn n) (dUn cls m dyn n) =
      tablesOf cls m dyn (n + 1) := by
  have hne₁ : dtSymtab cls ≠ dtStrtab cls := by cases cls <;> decide
  have hne₂ : dtSymtab cls ≠ dtStrsz cls := by cases cls <;> decide
  have hne₃ : dtStrtab cls ≠ dtStrsz cls := by cases cls <;> decide
  simp only [setTable, tablesOf, tableOf_succ]
  split_ifs <;> simp_all

theorem dynamicRound_tablesOf (dyn : Addr cls.bits) (i : ℕ) :
    dynamicRound cls m dyn (i, tablesOf cls m dyn i) =
      if dTag cls m dyn i = dtNull cls then .inl (tablesOf cls m dyn i)
      else .inr (i + 1, tablesOf cls m dyn (i + 1)) := by
  rw [← setTable_tablesOf]
  rfl

/-- **The dynamic section** is read up to `DT_NULL`; of two entries with a tag the later counts. -/
theorem dynamicRound_returns {dyn : Addr cls.bits} {n : ℕ} (h : HasEntries cls m dyn n) :
    Loops.Returns (dynamicRound cls m dyn) (0, ⟨0, 0, 0⟩) (tablesOf cls m dyn n) := by
  have htotal : ∃ t, Loops.Returns (dynamicRound cls m dyn) (0, ⟨0, 0, 0⟩) t ∧
      t = tablesOf cls m dyn n := by
    refine Loops.total (fun s => ∃ i ≤ n, s = (i, tablesOf cls m dyn i)) (fun s => n - s.1)
      ⟨0, Nat.zero_le n, rfl⟩ ?_ ?_
    · intro s s' hinv hbody
      obtain ⟨i, hi, rfl⟩ := hinv
      rw [dynamicRound_tablesOf] at hbody
      split_ifs at hbody with hnull
      obtain rfl := Sum.inr.inj hbody
      have hlt : i < n := Nat.lt_of_le_of_ne hi fun heq => hnull (heq ▸ h.1)
      exact ⟨⟨i + 1, hlt, rfl⟩, show n - (i + 1) < n - i by omega⟩
    · intro s t hinv hbody
      obtain ⟨i, hi, rfl⟩ := hinv
      rw [dynamicRound_tablesOf] at hbody
      split_ifs at hbody with hnull
      obtain rfl := Sum.inl.inj hbody
      have heq : i = n := Nat.le_antisymm hi (Nat.not_lt.mp fun hlt => h.2 i hlt hnull)
      rw [heq]
  obtain ⟨t, hreturns, rfl⟩ := htotal
  exact hreturns

/-- The symbol at an index. -/
def symbolAt (t : Tables cls.bits) (i : ℕ) : Addr cls.bits :=
  t.symtab + BitVec.ofNat cls.bits (i * cls.symSize)

/-- The symbol is below the string table and has a name. -/
def InTable (m : Mem cls.bits) (t : Tables cls.bits) (sym : Addr cls.bits) : Prop :=
  sym < t.strtab ∧ stName cls m sym < t.strtabSize

/-- The first symbol of a stub at `func` has this index. -/
def FirstStub (m : Mem cls.bits) (t : Tables cls.bits) (func : Addr cls.bits) (i : ℕ) : Prop :=
  InTable m t (symbolAt t i) ∧ IsStub cls m func (symbolAt t i) ∧
    ∀ j < i, InTable m t (symbolAt t j) ∧ ¬ IsStub cls m func (symbolAt t j)

theorem symbolAt_succ (t : Tables cls.bits) (i : ℕ) :
    symbolAt t (i + 1) = symbolAt t i + BitVec.ofNat cls.bits cls.symSize := by
  rw [symbolAt, symbolAt, Nat.succ_mul, BitVec.ofNat_add, BitVec.add_assoc]

/-- What a search for the first stub comes to. -/
def Searched (m : Mem cls.bits) (t : Tables cls.bits) (func : Addr cls.bits)
    (r : Option (Addr cls.bits)) : Prop :=
  (∃ i, FirstStub m t func i ∧ r = some (t.strtab + stName cls m (symbolAt t i))) ∨
    (¬ ∃ i, FirstStub m t func i) ∧ r = none

/-- What a round does with a symbol. -/
theorem symbolRound_cases (t : Tables cls.bits) (func sym : Addr cls.bits) :
    (¬ InTable m t sym ∧ symbolRound cls m t func sym = .inl none) ∨
      (InTable m t sym ∧ IsStub cls m func sym ∧
        symbolRound cls m t func sym = .inl (some (t.strtab + stName cls m sym))) ∨
      (InTable m t sym ∧ ¬ IsStub cls m func sym ∧
        symbolRound cls m t func sym = .inr (sym + BitVec.ofNat cls.bits cls.symSize)) := by
  unfold symbolRound
  by_cases hlt : sym < t.strtab
  · by_cases hname : t.strtabSize ≤ stName cls m sym
    · refine Or.inl ⟨fun hin => BitVec.not_le.mpr hin.2 hname, ?_⟩
      rw [if_pos hlt, if_pos hname]
    · have hin : InTable m t sym := ⟨hlt, BitVec.not_le.mp hname⟩
      rw [if_pos hlt, if_neg hname]
      by_cases hstub : IsStub cls m func sym
      · exact Or.inr (Or.inl ⟨hin, hstub, if_pos hstub⟩)
      · exact Or.inr (Or.inr ⟨hin, hstub, if_neg hstub⟩)
  · exact Or.inl ⟨fun hin => hlt hin.1, if_neg hlt⟩

/-- The symbols before an index have been passed over. -/
def Passed (m : Mem cls.bits) (t : Tables cls.bits) (func : Addr cls.bits) (i : ℕ) : Prop :=
  ∀ j < i, InTable m t (symbolAt t j) ∧ ¬ IsStub cls m func (symbolAt t j)

theorem Passed.next {t : Tables cls.bits} {func : Addr cls.bits} {i : ℕ} (h : Passed m t func i)
    (hin : InTable m t (symbolAt t i)) (hstub : ¬ IsStub cls m func (symbolAt t i)) :
    Passed m t func (i + 1) := by
  intro j hj
  rcases Nat.lt_succ_iff_lt_or_eq.mp hj with hlt | heq
  · exact h j hlt
  · rw [heq]
    exact ⟨hin, hstub⟩

/-- Behind the end of the symbols there is no stub. -/
theorem Passed.searched_none {t : Tables cls.bits} {func : Addr cls.bits} {i : ℕ}
    (h : Passed m t func i) (hout : ¬ InTable m t (symbolAt t i)) : Searched m t func none := by
  refine Or.inr ⟨?_, rfl⟩
  intro hexists
  obtain ⟨k, hin, hstub, hfirst⟩ := hexists
  rcases Nat.lt_trichotomy k i with hlt | rfl | hlt
  · exact (h k hlt).2 hstub
  · exact hout hin
  · exact hout (hfirst i hlt).1

/-- A symbol in the table is followed by a higher address. -/
theorem InTable.lt_next {t : Tables cls.bits} {sym : Addr cls.bits} (h : InTable m t sym)
    (hroom : t.strtab.toNat + cls.symSize ≤ 2 ^ cls.bits) :
    t.strtab.toNat - (sym + BitVec.ofNat cls.bits cls.symSize).toNat <
      t.strtab.toNat - sym.toNat := by
  have hsize : 0 < cls.symSize := by cases cls <;> decide
  have hlt : sym.toNat < t.strtab.toNat := h.1
  rw [BitVec.toNat_add, BitVec.toNat_ofNat, Nat.mod_eq_of_lt (a := cls.symSize) (by omega),
    Nat.mod_eq_of_lt (by omega)]
  omega

/-- **The search** ends at the first stub, or at the end of the symbols when there is none. -/
theorem symbolRound_returns {t : Tables cls.bits} (func : Addr cls.bits)
    (hroom : t.strtab.toNat + cls.symSize ≤ 2 ^ cls.bits) :
    ∃ r, Loops.Returns (symbolRound cls m t func) t.symtab r ∧ Searched m t func r := by
  refine Loops.total (fun sym => ∃ i, sym = symbolAt t i ∧ Passed m t func i)
    (fun sym => t.strtab.toNat - sym.toNat) ⟨0, by simp [symbolAt], by simp [Passed]⟩ ?_ ?_
  · intro sym sym' hinv hbody
    obtain ⟨i, rfl, hpassed⟩ := hinv
    rcases symbolRound_cases t func (symbolAt t i) with
      ⟨-, hround⟩ | ⟨-, -, hround⟩ | ⟨hin, hstub, hround⟩
    · cases hround.symm.trans hbody
    · cases hround.symm.trans hbody
    · obtain rfl := Sum.inr.inj (hround.symm.trans hbody)
      exact ⟨⟨i + 1, (symbolAt_succ t i).symm, hpassed.next hin hstub⟩, hin.lt_next hroom⟩
  · intro sym r hinv hbody
    obtain ⟨i, rfl, hpassed⟩ := hinv
    rcases symbolRound_cases t func (symbolAt t i) with
      ⟨hout, hround⟩ | ⟨hin, hstub, hround⟩ | ⟨-, -, hround⟩
    · obtain rfl := Sum.inl.inj (hround.symm.trans hbody)
      exact hpassed.searched_none hout
    · obtain rfl := Sum.inl.inj (hround.symm.trans hbody)
      exact Or.inl ⟨i, ⟨hin, hstub, hpassed⟩, rfl⟩
    · cases hround.symm.trans hbody

/-! ## The definition of a stub -/

/-- The tables of the module that is searched for a function. -/
def HasTables (m : Mem cls.bits) (modules : List (LinkMap cls.bits)) (func : Addr cls.bits)
    (t : Tables cls.bits) : Prop :=
  ∃ lmap n, lowestModule func modules = some lmap ∧
    (lmap.lAddr ≠ 0 → IsElfModule m lmap.lAddr) ∧ HasEntries cls m lmap.lLd n ∧
      t = tablesOf cls m lmap.lLd n

/-- The module has a stub at `func`, and its name is at `name`. -/
def IsStubNamed (m : Mem cls.bits) (modules : List (LinkMap cls.bits)) (func name : Addr cls.bits) :
    Prop :=
  ∃ t i, HasTables m modules func t ∧ FirstStub m t func i ∧
    name = t.strtab + stName cls m (symbolAt t i)

/-- `dlsym` finds a definition that is not the stub, behind the stub if it finds the stub first. -/
def Defines {w : ℕ} (dlsym : Handle → Addr w → Addr w) (func name f : Addr w) : Prop :=
  f ≠ 0 ∧ f ≠ func ∧
    (dlsym .default name = f ∨ dlsym .default name = func ∧ dlsym .next name = f)

theorem first_unique {p : ℕ → Prop} {i i' : ℕ} (h : p i) (hbefore : ∀ j < i, ¬ p j) (h' : p i')
    (hbefore' : ∀ j < i', ¬ p j) : i = i' :=
  Nat.le_antisymm (Nat.not_lt.mp fun hlt => hbefore i' hlt h')
    (Nat.not_lt.mp fun hlt => hbefore' i hlt h)

theorem hasEntries_unique {dyn : Addr cls.bits} {n n' : ℕ} (h : HasEntries cls m dyn n)
    (h' : HasEntries cls m dyn n') : n = n' :=
  first_unique h.1 h.2 h'.1 h'.2

theorem hasTables_unique {modules : List (LinkMap cls.bits)} {func : Addr cls.bits}
    {t t' : Tables cls.bits} (h : HasTables m modules func t) (h' : HasTables m modules func t') :
    t = t' := by
  obtain ⟨lmap, n, hlow, -, hn, rfl⟩ := h
  obtain ⟨lmap', n', hlow', -, hn', rfl⟩ := h'
  obtain rfl := Option.some.inj (hlow.symm.trans hlow')
  rw [hasEntries_unique hn hn']

theorem firstStub_unique {t : Tables cls.bits} {func : Addr cls.bits} {i i' : ℕ}
    (h : FirstStub m t func i) (h' : FirstStub m t func i') : i = i' :=
  first_unique (p := fun i => IsStub cls m func (symbolAt t i)) h.2.1 (fun j hj => (h.2.2 j hj).2)
    h'.2.1 fun j hj => (h'.2.2 j hj).2

theorem isStubNamed_unique {modules : List (LinkMap cls.bits)} {func name name' : Addr cls.bits}
    (h : IsStubNamed m modules func name) (h' : IsStubNamed m modules func name') :
    name = name' := by
  obtain ⟨t, i, ht, hi, rfl⟩ := h
  obtain ⟨t', i', ht', hi', rfl⟩ := h'
  obtain rfl := hasTables_unique ht ht'
  rw [firstStub_unique hi hi']

/-- The function hooked for a stub is a definition of it, if there is one. -/
theorem definitionOf_defines {w : ℕ} (dlsym : Handle → Addr w → Addr w) (func name : Addr w) :
    Defines dlsym func name (definitionOf dlsym func name) ∨
      (∀ f, ¬ Defines dlsym func name f) ∧ definitionOf dlsym func name = func := by
  unfold Defines definitionOf
  dsimp only
  by_cases hself : dlsym .default name = func
  · rw [if_pos hself]
    by_cases hnext : dlsym .next name ≠ 0 ∧ dlsym .next name ≠ func
    · rw [if_pos hnext.1]
      exact Or.inl ⟨hnext.1, hnext.2, Or.inr ⟨hself, rfl⟩⟩
    · refine Or.inr ⟨?_, by split_ifs <;> grind⟩
      intro f hdefines
      obtain ⟨hne, hfunc, hf | ⟨-, rfl⟩⟩ := hdefines
      · exact hfunc (hf.symm.trans hself)
      · exact hnext ⟨hne, hfunc⟩
  · rw [if_neg hself]
    by_cases hnull : dlsym .default name ≠ 0
    · rw [if_pos hnull]
      exact Or.inl ⟨hnull, hself, Or.inl rfl⟩
    · refine Or.inr ⟨?_, if_neg hnull⟩
      intro f hdefines
      obtain ⟨hne, -, rfl | ⟨hf, -⟩⟩ := hdefines
      · exact hnull hne
      · exact hself hf

/-- **Where the search leads**: to the name of the stub, or to nothing. -/
theorem unixResolveFunc_searched {modules : List (LinkMap cls.bits)}
    {func : Addr cls.bits} (dlsym : Handle → Addr cls.bits → Addr cls.bits)
    (hends : ∀ lmap, lowestModule func modules = some lmap → ∃ n, HasEntries cls m lmap.lLd n)
    (hroom : ∀ t, HasTables m modules func t → t.strtab.toNat + cls.symSize ≤ 2 ^ cls.bits) :
    ∃ (name : Option (Addr cls.bits)) (rounds : ℕ),
      (∀ fuel, rounds ≤ fuel → unixResolveFunc cls m modules dlsym fuel func =
        some (name.elim func (definitionOf dlsym func))) ∧
      ((∃ a, IsStubNamed m modules func a ∧ name = some a) ∨
        (¬ ∃ a, IsStubNamed m modules func a) ∧ name = none) := by
  unfold unixResolveFunc
  rw [findModule_eq]
  cases hlow : lowestModule func modules with
  | none =>
    refine ⟨none, 0, fun _ _ => rfl, Or.inr ⟨?_, rfl⟩⟩
    intro hexists
    obtain ⟨a, t, i, ⟨lmap, n, hsome, -⟩, -⟩ := hexists
    rw [hlow] at hsome
    cases hsome
  | some lmap =>
    dsimp only
    by_cases hheader : lmap.lAddr ≠ 0 ∧ ¬ IsElfModule m lmap.lAddr
    · refine ⟨none, 0, fun _ _ => if_pos hheader, Or.inr ⟨?_, rfl⟩⟩
      intro hexists
      obtain ⟨a, t, i, ⟨lmap', n, hsome, helf, -⟩, -⟩ := hexists
      rw [hlow] at hsome
      obtain rfl := Option.some.inj hsome
      exact hheader.2 (helf hheader.1)
    obtain ⟨n, hn⟩ := hends lmap hlow
    have htables : HasTables m modules func (tablesOf cls m lmap.lLd n) :=
      ⟨lmap, n, hlow, fun hne => not_not.mp fun h => hheader ⟨hne, h⟩, hn, rfl⟩
    obtain ⟨name, hreturns, hsearched⟩ :=
      symbolRound_returns (m := m) func (hroom _ htables)
    obtain ⟨rounds₁, hrounds₁⟩ := (dynamicRound_returns hn).run
    obtain ⟨rounds₂, hrounds₂⟩ := hreturns.run
    refine ⟨name, rounds₁ + rounds₂, fun fuel hfuel => ?_, ?_⟩
    · rw [if_neg hheader, hrounds₁ fuel (by omega), Option.bind_some, hrounds₂ fuel (by omega),
        Option.map_some]
    · rcases hsearched with ⟨i, hi, rfl⟩ | ⟨hnone, rfl⟩
      · exact Or.inl ⟨_, ⟨_, i, htables, hi, rfl⟩, rfl⟩
      · refine Or.inr ⟨?_, rfl⟩
        intro hexists
        obtain ⟨a, t, i, ht, hi, -⟩ := hexists
        obtain rfl := hasTables_unique ht htables
        exact hnone ⟨i, hi⟩

/-- **Resolving a stub.** The search ends. The function it leads to is a definition of the stub
other than the stub, and the function itself when it is no stub or has no other definition. -/
theorem stub_resolved {modules : List (LinkMap cls.bits)} {func : Addr cls.bits}
    (dlsym : Handle → Addr cls.bits → Addr cls.bits)
    (hends : ∀ lmap, lowestModule func modules = some lmap → ∃ n, HasEntries cls m lmap.lLd n)
    (hroom : ∀ t, HasTables m modules func t → t.strtab.toNat + cls.symSize ≤ 2 ^ cls.bits) :
    ∃ f rounds, (∀ fuel, rounds ≤ fuel →
      unixResolveFunc cls m modules dlsym fuel func = some f) ∧
      ((∃ name, IsStubNamed m modules func name ∧ Defines dlsym func name f) ∨
        (¬ ∃ name f', IsStubNamed m modules func name ∧ Defines dlsym func name f') ∧
          f = func) := by
  obtain ⟨name, rounds, hruns, hname⟩ := unixResolveFunc_searched dlsym hends hroom
  refine ⟨_, rounds, hruns, ?_⟩
  rcases hname with ⟨a, hstub, rfl⟩ | ⟨hnone, rfl⟩
  · rcases definitionOf_defines dlsym func a with hdefines | ⟨hnot, hself⟩
    · exact Or.inl ⟨a, hstub, hdefines⟩
    · refine Or.inr ⟨?_, hself⟩
      intro hexists
      obtain ⟨a', f', hstub', hdefines⟩ := hexists
      obtain rfl := isStubNamed_unique hstub hstub'
      exact hnot f' hdefines
  · refine Or.inr ⟨?_, rfl⟩
    intro hexists
    obtain ⟨a, f', hstub, -⟩ := hexists
    exact hnone ⟨a, hstub⟩

/-! ## A sample program -/

/-- A program at its own addresses with two symbols, the second of a stub at `0x400500`. -/
def sampleProgram : Mem 64 :=
  [((0x600e00 : Addr 64), ([6, 0, 0, 0, 0, 0, 0, 0, 0x00, 0x03, 0x40] : List Byte)),
    (0x600e10, [5, 0, 0, 0, 0, 0, 0, 0, 0x30, 0x03, 0x40]),
    (0x600e20, [10, 0, 0, 0, 0, 0, 0, 0, 0x20]),
    (0x400318, [1, 0, 0, 0, 0x12, 0, 0, 0, 0x00, 0x05, 0x40])].foldl
      (fun m (block : Addr 64 × List Byte) => write m block.1 block.2) fun _ => 0

/-- The program and a library. -/
def sampleModules : List (LinkMap 64) := [⟨0, 0x600e00⟩, ⟨0x7f0000000000, 0x7f0000200000⟩]

/-- The library defines what the program has a stub for. -/
def sampleDlsym : Handle → Addr 64 → Addr 64
  | .default, _ => 0x400500
  | .next, _ => 0x7f0000001000

theorem sampleProgram_hasEntries : @HasEntries .elf64 sampleProgram 0x600e00 3 := by
  refine ⟨by decide +kernel, fun i hi => ?_⟩
  obtain rfl | rfl | rfl : i = 0 ∨ i = 1 ∨ i = 2 := by omega
  all_goals decide +kernel

theorem sampleModules_lowest : lowestModule 0x400500 sampleModules = some ⟨0, 0x600e00⟩ := by
  decide +kernel

theorem sampleProgram_hasTables :
    @HasTables .elf64 sampleProgram sampleModules 0x400500 ⟨0x400300, 0x400330, 0x20⟩ :=
  ⟨⟨0, 0x600e00⟩, 3, sampleModules_lowest, fun h => absurd rfl h, sampleProgram_hasEntries,
    by decide +kernel⟩

example : unixResolveFunc .elf64 sampleProgram sampleModules sampleDlsym 4 0x400500 =
    some 0x7f0000001000 := by decide +kernel

theorem stub_resolved_sample :
    ∃ f rounds, (∀ fuel, rounds ≤ fuel →
      unixResolveFunc .elf64 sampleProgram sampleModules sampleDlsym fuel 0x400500 = some f) ∧
      ((∃ name, @IsStubNamed .elf64 sampleProgram sampleModules 0x400500 name ∧
          Defines sampleDlsym 0x400500 name f) ∨
        (¬ ∃ name f', @IsStubNamed .elf64 sampleProgram sampleModules 0x400500 name ∧
          Defines sampleDlsym 0x400500 name f') ∧ f = 0x400500) :=
  @stub_resolved .elf64 sampleProgram sampleModules 0x400500 sampleDlsym
    (fun lmap hlow => ⟨3, by
      obtain rfl := Option.some.inj (sampleModules_lowest.symm.trans hlow)
      exact sampleProgram_hasEntries⟩)
    (fun t ht => by
      obtain rfl := hasTables_unique sampleProgram_hasTables ht
      decide)

end Funchook.Unix
