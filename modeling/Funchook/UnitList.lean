import Funchook.PageList

/-!
# The list of units and its links (`os_windows.c`, 64-bit)

`funchook_page_alloc` is modelled over a plain list of units and over the links of `page_list`.
While the ring holds the units of the list, with the same flags and counts, both return the same,
and the ring holds the units of the new list.
-/

namespace Funchook.Windows.PageList

open Function Ring Runs
open X86 (PageSize)

variable {pageSize : PageSize} {unit : AllocationUnit pageSize} {head : Addr 64}
  {s : PageListState 64} {pl : PageInfo unit} {units units' : List (PageInfo unit)}
  {avail : Addr 64 → Bool} {env : PageAllocEnv unit} {search : Except Failure (Addr 64)}
  {i rounds : ℕ} {func : Addr 64}

/-! ## One state for both -/

/-- The member of the ring at the address of the `page_info` has its fields. -/
structure Holds (s : PageListState 64) (pl : PageInfo unit) : Prop where
  numUsed : s.numUsed pl.addr.val = pl.numUsed
  used : pl.used = (List.range unit.maxNumPages).map (s.used pl.addr.val)

/-- The addresses of the units. -/
def addresses (units : List (PageInfo unit)) : List (Addr 64) := units.map fun pl => pl.addr.val

/-- The ring holds the units, in their order. -/
structure Refines (head : Addr 64) (s : PageListState 64) (units : List (PageInfo unit)) :
    Prop where
  ring : IsRing s.links head (addresses units)
  holds : ∀ pl ∈ units, Holds s pl

/-- The answers of the system, for the model with the links. `search` is how the loop of
`alloc_page_info` ends. -/
def allocEnv (env : PageAllocEnv unit) (search : Except Failure (Addr 64))
    (releaseInfo : Option OsError) : AllocEnv 64 where
  search := search
  reserve hint := (env.reserve hint).map fun pl => pl.val
  commitInfo := env.commitInfo
  releaseInfo := releaseInfo
  commitPage := env.commitPage

theorem Holds.isUsed (h : Holds s pl) (hi : i < unit.maxNumPages) :
    pl.isUsed i = s.used pl.addr.val i := by
  simp [PageInfo.isUsed, h.used, hi]

theorem holds_new (addr : UnitAddr unit) : Holds (s.insertUnit head addr.val) (.new addr) where
  numUsed := update_self ..
  used := by simp [PageInfo.new, PageListState.insertUnit]

/-- `used[i] = 1` and `num_used++`, in both. -/
theorem Holds.commit (h : Holds s pl) (i : ℕ) :
    Holds (s.commit pageSize pl.addr.val i) (pl.commit i) where
  numUsed := by simp [PageInfo.commit, PageListState.commit, h.numUsed]
  used := by
    simp only [PageInfo.commit, PageListState.commit, update_self, h.used]
    apply List.ext_getElem
    · simp
    · intro j hj _
      simp only [List.getElem_set, List.getElem_map, List.getElem_range]
      by_cases hij : i = j
      · rw [if_pos hij, hij, update_self]
      · rw [if_neg hij, update_of_ne (Ne.symm hij)]

/-- A change of another member. -/
theorem Holds.congr (h : Holds s pl) {s' : PageListState 64}
    (hnum : s'.numUsed pl.addr.val = s.numUsed pl.addr.val)
    (hused : s'.used pl.addr.val = s.used pl.addr.val) : Holds s' pl where
  numUsed := hnum.trans h.numUsed
  used := by rw [hused, h.used]

/-! ## The loops -/

theorem Holds.findUnused_eq (h : Holds s pl) (avail : Addr 64 → Bool) :
    findUnused unit s avail pl.addr.val = Windows.findUnused avail pl := by
  refine List.find?_congr fun i hi => ?_
  rw [h.isUsed (List.mem_range.mp hi)]
  rfl

theorem findPage_findSome (h : ∀ pl ∈ units, Holds s pl) (avail : Addr 64 → Bool) :
    ((addresses units).findSome? fun u => (findUnused unit s avail u).map fun i => (u, i)) =
      (Windows.findPage avail units).map fun found => (found.pl.addr.val, found.idx) := by
  induction units with
  | nil => rfl
  | cons pl pls ih =>
    have hrest := ih fun pl' hpl' => h pl' (List.mem_cons_of_mem pl hpl')
    rw [addresses, List.map_cons, List.findSome?_cons, (h pl List.mem_cons_self).findUnused_eq,
      Windows.findPage]
    cases Windows.findUnused avail pl with
    | some i => rfl
    | none =>
      refine hrest.trans ?_
      cases Windows.findPage avail pls <;> rfl

/-- The page found is one of a unit of the list. -/
theorem findPage_some {found : FoundUnused unit} (h : Windows.findPage avail units = some found) :
    units = found.before ++ found.pl :: found.after := by
  induction units generalizing found with
  | nil => cases h
  | cons pl pls ih =>
    rw [Windows.findPage] at h
    cases hunused : Windows.findUnused avail pl with
    | some i =>
      rw [hunused] at h
      cases h
      rfl
    | none =>
      rw [hunused] at h
      obtain ⟨found', hfound, rfl⟩ := Option.map_eq_some_iff.mp h
      exact congrArg (pl :: ·) (ih hfound)

/-! ## What one call does -/

/-- A new unit, behind the head of the ring and in front of the list. -/
theorem Refines.insertUnit (h : Refines head s units) {addr : UnitAddr unit}
    (hnew : addr.val ∉ head :: addresses units) :
    Refines head (s.insertUnit head addr.val) (.new addr :: units) where
  ring := h.ring.insertBehind hnew
  holds := by
    intro pl hpl
    rcases List.mem_cons.mp hpl with rfl | hpl
    · exact holds_new addr
    · have hne : pl.addr.val ≠ addr.val := by
        intro heq
        exact hnew (List.mem_cons_of_mem _ (heq ▸ List.mem_map_of_mem hpl))
      exact (h.holds pl hpl).congr (update_of_ne hne ..) (update_of_ne hne ..)

theorem Refines.commit {before after : List (PageInfo unit)}
    (h : Refines head s (before ++ pl :: after)) (i : ℕ) :
    Refines head (s.commit pageSize pl.addr.val i) (before ++ pl.commit i :: after) where
  ring := by
    have hsame : addresses (before ++ pl.commit i :: after) =
        addresses (before ++ pl :: after) := by simp [addresses, PageInfo.commit]
    rw [hsame]
    exact h.ring
  holds := by
    have hnodup := (List.nodup_cons.mp h.ring.1).2
    rw [addresses, List.map_append, List.map_cons, List.nodup_middle, List.nodup_cons] at hnodup
    have hother : ∀ pl' ∈ before ++ after, Holds (s.commit pageSize pl.addr.val i) pl' := by
      intro pl' hpl'
      have hne : pl'.addr.val ≠ pl.addr.val := by
        intro heq
        exact hnodup.1 (heq ▸ List.map_append ▸ List.mem_map_of_mem hpl')
      refine (h.holds pl' ?_).congr (update_of_ne hne ..) (update_of_ne hne ..)
      rcases List.mem_append.mp hpl' with hmem | hmem
      · exact List.mem_append_left _ hmem
      · exact List.mem_append_right _ (List.mem_cons_of_mem _ hmem)
    intro pl' hpl'
    rcases List.mem_append.mp hpl' with hmem | hmem
    · exact hother pl' (List.mem_append_left _ hmem)
    · rcases List.mem_cons.mp hmem with rfl | hmem
      · exact (h.holds pl (List.mem_append_right _ List.mem_cons_self)).commit i
      · exact hother pl' (List.mem_append_right _ hmem)

theorem Refines.commitFound {found : FoundUnused unit}
    (h : Refines head s (found.before ++ found.pl :: found.after)) (env : PageAllocEnv unit)
    (search : Except Failure (Addr 64)) (releaseInfo : Option OsError) :
    ∃ s', @PageList.commitFound 64 pageSize s (allocEnv env search releaseInfo)
        found.pl.addr.val found.idx = ((Windows.commitFound env found).2, s') ∧
      Refines head s' (Windows.commitFound env found).1 := by
  cases hcommit : env.commitPage with
  | some e =>
    have hnum := (h.holds found.pl (List.mem_append_right _ List.mem_cons_self)).numUsed
    simp only [PageList.commitFound, Windows.commitFound, allocEnv, hcommit, hnum]
    exact ⟨s, rfl, h⟩
  | none =>
    simp only [PageList.commitFound, Windows.commitFound, allocEnv, hcommit]
    exact ⟨_, rfl, h.commit found.idx⟩

/-- `alloc_page_info` returns the same unit, or fails with the same error. -/
theorem Refines.allocPageInfo (h : Refines head s units)
    (hsearch : searchFree env rounds func = some search)
    (hnew : ∀ hint addr, env.reserve hint = .ok addr → addr.val ∉ head :: addresses units)
    (releaseInfo : Option OsError) :
    ∃ result s', Windows.allocPageInfo env rounds func = some result ∧
      PageList.allocPageInfo unit head s (allocEnv env search releaseInfo) =
        (result.map fun pl => pl.addr.val, s') ∧
      Refines head s' (result.toOption.toList ++ units) := by
  rw [Windows.allocPageInfo, hsearch]
  cases search with
  | error f => exact ⟨.error f, s, rfl, rfl, h⟩
  | ok hint =>
    suffices hunit : ∃ s',
        PageList.allocPageInfo unit head s (allocEnv env (.ok hint) releaseInfo) =
          ((reserveUnit env hint).map fun pl => pl.addr.val, s') ∧
        Refines head s' ((reserveUnit env hint).toOption.toList ++ units) by
      obtain ⟨s', hcall, hrefines⟩ := hunit
      exact ⟨_, s', rfl, hcall, hrefines⟩
    simp only [reserveUnit, PageList.allocPageInfo, allocEnv]
    cases hreserve : env.reserve hint with
    | error e => exact ⟨s, rfl, h⟩
    | ok addr =>
      simp only [Except.map]
      cases env.commitInfo with
      | none => exact ⟨_, rfl, h.insertUnit (hnew hint addr hreserve)⟩
      | some e =>
        -- the unit is off the list, whether it is released or not
        cases releaseInfo with
        | none => exact ⟨s, rfl, h⟩
        | some _ => exact ⟨_, rfl, h.ring, fun pl hpl => (h.holds pl hpl).congr rfl rfl⟩

/-- **Simulation.** What `funchook_page_alloc` returns for the list it returns for the ring, which
holds the units of the new list afterwards. -/
theorem Refines.alloc (h : Refines head s units)
    (hsearch : ∀ found, searchFree env rounds func = some found → search = found)
    (hnew : ∀ hint addr, env.reserve hint = .ok addr → addr.val ∉ head :: addresses units)
    (releaseInfo : Option OsError) {result : Except Failure (Addr 64)}
    (hcall : Windows.funchookPageAlloc avail env rounds units func = some (units', result)) :
    ∃ s', Step unit head s (.alloc avail (allocEnv env search releaseInfo) result) s' ∧
      Refines head s' units' := by
  have hhead : head ∉ addresses units := (List.nodup_cons.mp h.ring.1).1
  have hfind : findPage unit head s avail ((addresses units).length + 1) (s.links.next head) =
      some ((Windows.findPage avail units).map fun found => (found.pl.addr.val, found.idx)) := by
    rw [← findPage_findSome h.holds avail]
    rcases findPage_of_chain avail _ h.ring.2 hhead with hfound | ⟨-, hle⟩
    · exact hfound
    · omega
  unfold Windows.funchookPageAlloc at hcall
  cases hfound : Windows.findPage avail units with
  | some found =>
    rw [hfound] at hcall hfind
    rw [findPage_some hfound] at h
    obtain ⟨s', hcommit, hrefines⟩ := h.commitFound env search releaseInfo
    rw [Option.some.inj hcall] at hcommit hrefines
    refine ⟨s', ⟨(addresses units).length + 1, ?_⟩, hrefines⟩
    unfold funchookPageAlloc
    rw [hfind]
    exact congrArg some hcommit
  | none =>
    rw [hfound] at hcall hfind
    dsimp only at hcall
    cases hstop : searchFree env rounds func with
    | none => simp [Windows.allocPageInfo, hstop] at hcall
    | some found =>
      cases hsearch found hstop
      obtain ⟨made, s₁, hmade, hring, hrefines⟩ := h.allocPageInfo hstop hnew releaseInfo
      rw [hmade] at hcall
      cases made with
      | error f =>
        cases hcall
        refine ⟨s₁, ⟨(addresses units).length + 1, ?_⟩, hrefines⟩
        unfold funchookPageAlloc
        rw [hfind, Option.map_none]
        dsimp only
        rw [hring]
        rfl
      | ok pl =>
        obtain ⟨s', hcommit, hrefines'⟩ :=
          @Refines.commitFound _ _ _ _ ⟨[], pl, 0, units⟩ hrefines env search releaseInfo
        rw [Option.some.inj hcall] at hcommit hrefines'
        refine ⟨s', ⟨(addresses units).length + 1, ?_⟩, hrefines'⟩
        unfold funchookPageAlloc
        rw [hfind, Option.map_none]
        dsimp only
        rw [hring]
        exact congrArg some hcommit

/-! ## Every state that is reached -/

/-- The `page_info` at an address. -/
def infoAt (s : PageListState 64) (addr : UnitAddr unit) : PageInfo unit :=
  ⟨addr, (s.numUsed addr.val).toNat, (List.range unit.maxNumPages).map (s.used addr.val)⟩

/-- The units of a state, as a list. -/
theorem Inv.refines {us : List (Addr 64)} (h : Inv unit head s us) :
    ∃ units : List (PageInfo unit), addresses units = us ∧ Refines head s units := by
  have haddr : ∀ u ∈ us, u.toNat % unit.toNat = 0 := fun u hu =>
    Nat.mod_eq_zero_of_dvd (h.unit_aligned hu)
  have hsame : addresses (us.attach.map fun u => @infoAt _ unit s ⟨u.1, haddr u.1 u.2⟩) = us := by
    simp [addresses, infoAt, Function.comp_def]
  refine ⟨_, hsame, hsame.symm ▸ h.ring, ?_⟩
  intro pl hpl
  obtain ⟨⟨u, hu⟩, -, rfl⟩ := List.mem_map.mp hpl
  refine ⟨?_, rfl⟩
  show s.numUsed u = ((s.numUsed u).toNat : ℤ)
  rw [h.numUsed u hu]
  rfl

/-- **The ring of any run** holds the units of a list, and returns pages as the list does. -/
theorem page_list_refines (h : Run (Step unit head) (Allowed unit head) (.start head) s) :
    ∃ units : List (PageInfo unit), Refines head s units ∧
      ∀ avail env rounds func search releaseInfo units' result,
        (∀ found, searchFree env rounds func = some found → search = found) →
        Allowed unit head s (.alloc avail (allocEnv env search releaseInfo) result) →
        Windows.funchookPageAlloc avail env rounds units func = some (units', result) →
          ∃ s', Step unit head s (.alloc avail (allocEnv env search releaseInfo) result) s' ∧
            Refines head s' units' := by
  obtain ⟨us, hinv⟩ := exists_inv (by decide) h
  obtain ⟨units, rfl, hrefines⟩ := hinv.refines
  refine ⟨units, hrefines, ?_⟩
  intro avail env rounds func search releaseInfo units' result hsearch hallowed hcall
  refine hrefines.alloc hsearch (fun hint addr hreserve => ?_) releaseInfo hcall
  -- a fresh unit is neither the head nor reserved
  have hmade : (allocEnv env search releaseInfo).reserve hint = .ok addr.val :=
    congrArg (Except.map fun addr : UnitAddr unit => addr.val) hreserve
  obtain ⟨-, hnew, hhead⟩ := hallowed hint addr.val hmade
  rw [List.mem_cons, not_or]
  exact ⟨hhead, fun hmem => hnew (hinv.reserved _ hmem)⟩

end Funchook.Windows.PageList
