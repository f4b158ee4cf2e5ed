import Mathlib.Data.List.Pairwise
import Funchook.HandleRun
import Funchook.PlatformArm64

/-!
# The slots of the entries of a handle

An entry lives in a slot of a page and is never moved. The invariant `PagesInv` says where the
pages of a handle lie: they are mapped, they do not meet, none holds more entries than it has
slots, and every slot in use holds the code arrays of its entry. A prepare takes the slot behind
the last one of a page, which no other entry meets; install and uninstall write to the targets
only, so the bytes of a slot in use never change while the targets lie outside the pages.
-/

namespace Funchook

open ByteMemory Runs

variable {w : ℕ} {P : Platform w}

/-- The slot of the page list that holds the entry. -/
def EntryAt (P : Platform w) (fh : FunchookT w) (slot : Addr w) (e : FunchookEntry w) : Prop :=
  ∃ page ∈ fh.pageList, ∃ idx, page.entries[idx]? = some e ∧ slot = P.slotAddr page.addr idx

/-- The code arrays of the entry stand in its slot. -/
structure SlotHolds (P : Platform w) (m : Mem w) (slot : Addr w) (e : FunchookEntry w) : Prop where
  transit : readBytes m slot e.transit.length = e.transit
  trampoline : readBytes m (P.trampolineAddr slot) e.trampoline.length = e.trampoline

/-- No target meets a page of the handle. -/
def TargetsOutside (P : Platform w) (fh : FunchookT w) : Prop :=
  ∀ e ∈ fh.entries, ∀ page ∈ fh.pageList, ∀ a, P.TargetByte e a → ¬ InRange page.addr P.pageSize a

/-- The two pages share no byte. -/
def PagesApart (P : Platform w) (p q : Addr w) : Prop :=
  RangesDisjoint p P.pageSize q P.pageSize

structure PagesInv (P : Platform w) (st : HandleState w) : Prop where
  used : ∀ page ∈ st.fh.pageList, page.used ≤ P.numEntriesInPage
  mapped : ∀ page ∈ st.fh.pageList, ∀ a, InRange page.addr P.pageSize a →
    st.world.mapped a = true
  apart : (st.fh.pageList.map FunchookPage.addr).Pairwise (PagesApart P)
  stored : ∀ slot e, EntryAt P st.fh slot e → SlotHolds P st.world.bytes slot e
  transit : ∀ e ∈ st.fh.entries, e.transit.length ≤ P.transitByteSize
  trampoline : ∀ e ∈ st.fh.entries, e.trampoline.length ≤ P.trampolineByteSize

theorem pagesInv_start (P : Platform w) (s₀ : World w) : PagesInv P (.start s₀) where
  used := fun _ h => by cases h
  mapped := fun _ h => by cases h
  apart := List.Pairwise.nil
  stored := by
    intro slot e h
    obtain ⟨page, hpage, -⟩ := h
    cases hpage
  transit := fun _ h => by cases h
  trampoline := fun _ h => by cases h

/-! ## Slots -/

theorem EntryAt.mem {fh : FunchookT w} {slot : Addr w} {e : FunchookEntry w}
    (h : EntryAt P fh slot e) : e ∈ fh.entries := by
  obtain ⟨page, hpage, idx, he, -⟩ := h
  exact List.mem_flatMap.mpr ⟨page, hpage, List.mem_of_getElem? he⟩

/-- The protection of the pages has no part in where the entries are. -/
theorem entryAt_congr {fh fh' : FunchookT w}
    (h : pageContents fh.pageList = pageContents fh'.pageList) {slot : Addr w}
    {e : FunchookEntry w} (he : EntryAt P fh slot e) : EntryAt P fh' slot e := by
  obtain ⟨page, hpage, idx, hidx, hslot⟩ := he
  have hmem : (page.addr, page.entries) ∈ pageContents fh'.pageList :=
    h ▸ List.mem_map_of_mem (f := fun q : FunchookPage w => (q.addr, q.entries)) hpage
  obtain ⟨page', hpage', heq⟩ := List.mem_map.mp hmem
  have haddr : page'.addr = page.addr := congrArg Prod.fst heq
  have hentries : page'.entries = page.entries := congrArg Prod.snd heq
  exact ⟨page', hpage', idx, hentries ▸ hidx, haddr ▸ hslot⟩

/-- Bytes that agree on a slot hold the same code arrays there. -/
theorem slotHolds_congr {m m' : Mem w} {slot : Addr w} {e : FunchookEntry w}
    (ht : e.transit.length ≤ P.transitByteSize) (hr : e.trampoline.length ≤ P.trampolineByteSize)
    (hsame : ∀ a, InRange slot P.entrySize a → m' a = m a) (h : SlotHolds P m slot e) :
    SlotHolds P m' slot e := by
  have hsize := entrySize_le P
  have hfits := P.transit_fits
  have hfits' := P.trampoline_fits
  have hread : ∀ (t : Addr w) (n : ℕ), n ≤ 2 ^ w →
      (∀ a, InRange t n a → InRange slot P.entrySize a) → readBytes m' t n = readBytes m t n := by
    intro t n hn hin
    refine List.ext_getElem (by simp) fun i hi _ => ?_
    rw [readBytes_length] at hi
    rw [getElem_readBytes, getElem_readBytes]
    exact hsame _ (hin _ (inRange_add hi hn))
  refine ⟨?_, ?_⟩
  · rw [hread _ _ (by omega) fun a ha => transit_inRange_slot (inRange_mono ha ht)]
    exact h.transit
  · rw [hread _ _ (by omega) fun a ha => trampoline_inRange_slot (inRange_mono ha hr)]
    exact h.trampoline

/-- An entry stored in its slot is held by it. -/
theorem storeEntry_holds {s : World w} {slot : Addr w} {e : FunchookEntry w}
    (ht : e.transit.length ≤ P.transitByteSize) (hr : e.trampoline.length ≤ P.trampolineByteSize) :
    SlotHolds P (storeEntry P s slot e).bytes slot e := by
  have hsize := entrySize_le P
  have hfits := P.transit_fits
  have hfits' := P.trampoline_fits
  have hbytes : (storeEntry P s slot e).bytes =
      write (write s.bytes slot e.transit) (P.trampolineAddr slot) e.trampoline := rfl
  refine ⟨?_, ?_⟩
  · have hinner : readBytes (write s.bytes slot e.transit) slot e.transit.length = e.transit :=
      readBytes_write _ _ (by omega)
    refine Eq.trans (List.ext_getElem (by simp) fun i hi _ => ?_) hinner
    rw [readBytes_length] at hi
    rw [getElem_readBytes, getElem_readBytes, hbytes, write_of_not_inRange]
    intro hin
    have hdist := sub_toNat_of_inner (t := slot) hin (by omega)
    rw [add_sub_toNat slot (by omega)] at hdist
    omega
  · rw [hbytes]
    exact readBytes_write _ _ (by omega)

/-- Slots of one page. -/
theorem slots_apart {page : Addr w} {idx idx' : ℕ} (hlt : idx < idx')
    (hidx' : idx' < P.numEntriesInPage) :
    RangesDisjoint (P.slotAddr page idx) P.entrySize (P.slotAddr page idx') P.entrySize := by
  have hfit := P.entries_fit
  have hsize := P.pageSize_le
  have h1 : (idx + 1) * P.entrySize ≤ idx' * P.entrySize := Nat.mul_le_mul_right _ hlt
  have h2 : (idx' + 1) * P.entrySize ≤ P.numEntriesInPage * P.entrySize :=
    Nat.mul_le_mul_right _ hidx'
  rw [Nat.succ_mul] at h1 h2
  exact rangesDisjoint_of_inner (by omega) (by omega)

/-- Slots of pages that do not meet. -/
theorem slots_apart_of_pages {p q : Addr w} (hpages : PagesApart P p q) {idx idx' : ℕ}
    (hidx : idx < P.numEntriesInPage) (hidx' : idx' < P.numEntriesInPage) :
    RangesDisjoint (P.slotAddr p idx) P.entrySize (P.slotAddr q idx') P.entrySize :=
  fun a ha ha' => hpages a (slot_inRange_page hidx ha) (slot_inRange_page hidx' ha')

theorem PagesInv.idx_lt {st : HandleState w} (hinv : PagesInv P st) {page : FunchookPage w}
    (hpage : page ∈ st.fh.pageList) {idx : ℕ} {e : FunchookEntry w}
    (he : page.entries[idx]? = some e) : idx < page.used ∧ idx < P.numEntriesInPage := by
  have hlt : idx < page.used := (List.getElem?_eq_some_iff.mp he).1
  exact ⟨hlt, Nat.lt_of_lt_of_le hlt (hinv.used page hpage)⟩

theorem PagesInv.slot_mapped {st : HandleState w} (hinv : PagesInv P st) {slot : Addr w}
    {e : FunchookEntry w} (he : EntryAt P st.fh slot e) {a : Addr w}
    (ha : InRange slot P.entrySize a) :
    st.world.mapped a = true ∧ ∃ page ∈ st.fh.pageList, InRange page.addr P.pageSize a := by
  obtain ⟨page, hpage, idx, hidx, rfl⟩ := he
  have hin := slot_inRange_page (hinv.idx_lt hpage hidx).2 ha
  exact ⟨hinv.mapped page hpage a hin, page, hpage, hin⟩

/-! ## Prepare -/

theorem getElem?_addEntry (pages : List (FunchookPage w)) (idx : ℕ) (e : FunchookEntry w) (i : ℕ) :
    (addEntry pages idx e)[i]? = (pages[i]?).map fun page =>
      if idx = i then { page with entries := page.entries ++ [e] } else page :=
  List.getElem?_modify ..

theorem map_addr_addEntry (pages : List (FunchookPage w)) (idx : ℕ) (e : FunchookEntry w) :
    (addEntry pages idx e).map FunchookPage.addr = pages.map FunchookPage.addr := by
  refine List.ext_getElem? fun i => ?_
  rw [List.getElem?_map, List.getElem?_map, getElem?_addEntry, Option.map_map]
  refine congrArg (Option.map · pages[i]?) (funext fun page => ?_)
  rw [Function.comp_apply]
  split <;> rfl

/-- The entries of the page list after a prepare: those before, and the new one behind them. -/
theorem entryAt_addEntry {fh fh' : FunchookT w} {idx : ℕ} {page : FunchookPage w}
    {e : FunchookEntry w} (hget : fh.pageList[idx]? = some page)
    (hfh' : fh'.pageList = addEntry fh.pageList idx e) {slot' : Addr w} {e' : FunchookEntry w} :
    EntryAt P fh' slot' e' ↔
      EntryAt P fh slot' e' ∨ (slot' = P.slotAddr page.addr page.used ∧ e' = e) := by
  unfold EntryAt
  rw [hfh']
  constructor
  · rintro ⟨page', hpage', j, hj, hslot⟩
    obtain ⟨i, hi⟩ := List.mem_iff_getElem?.mp hpage'
    rw [getElem?_addEntry] at hi
    obtain ⟨page₀, hpage₀, heq⟩ := Option.map_eq_some_iff.mp hi
    by_cases hidx : idx = i
    · rw [← hidx, hget] at hpage₀
      cases hpage₀
      rw [if_pos hidx] at heq
      rw [← heq] at hj hslot
      dsimp only at hj hslot
      rcases Nat.lt_or_ge j page.used with hlt | hge
      · rw [List.getElem?_append_left hlt] at hj
        exact Or.inl ⟨page, List.mem_of_getElem? hget, j, hj, hslot⟩
      · have hlast : j = page.used := by
          have hbound := (List.getElem?_eq_some_iff.mp hj).1
          rw [List.length_append, List.length_singleton] at hbound
          exact Nat.le_antisymm (Nat.le_of_lt_succ hbound) hge
        rw [hlast, FunchookPage.used, List.getElem?_concat_length] at hj
        exact Or.inr ⟨hlast ▸ hslot, (Option.some.inj hj).symm⟩
    · rw [if_neg hidx] at heq
      exact Or.inl ⟨page', List.mem_of_getElem? (heq ▸ hpage₀), j, hj, hslot⟩
  · rintro (⟨page', hpage', j, hj, hslot⟩ | ⟨hslot, he⟩)
    · obtain ⟨i, hi⟩ := List.mem_iff_getElem?.mp hpage'
      refine ⟨if idx = i then { page' with entries := page'.entries ++ [e] } else page',
        List.mem_iff_getElem?.mpr ⟨i, ?_⟩, j, ?_, ?_⟩
      · rw [getElem?_addEntry, hi]
        rfl
      · split
        · rw [List.getElem?_append_left (List.getElem?_eq_some_iff.mp hj).1]
          exact hj
        · exact hj
      · split <;> exact hslot
    · refine ⟨{ page with entries := page.entries ++ [e] },
        List.mem_iff_getElem?.mpr ⟨idx, ?_⟩, page.used, ?_, hslot⟩
      · rw [getElem?_addEntry, hget, Option.map_some, if_pos rfl]
      · rw [he]
        exact List.getElem?_concat_length ..

instance : Std.Symm fun p q : FunchookPage w => PagesApart P p.addr q.addr :=
  ⟨fun _ _ h => rangesDisjoint_symm h⟩

theorem PagesInv.pages_apart {st : HandleState w} (hinv : PagesInv P st) {p q : FunchookPage w}
    (hp : p ∈ st.fh.pageList) (hq : q ∈ st.fh.pageList) (hne : p ≠ q) :
    PagesApart P p.addr q.addr :=
  (List.pairwise_map.mp hinv.apart).forall hp hq hne

/-- Two entries in use are the same or stand in slots apart. -/
theorem PagesInv.entries_apart {st : HandleState w} (hinv : PagesInv P st) {slot slot' : Addr w}
    {e e' : FunchookEntry w} (he : EntryAt P st.fh slot e) (he' : EntryAt P st.fh slot' e') :
    (slot = slot' ∧ e = e') ∨ RangesDisjoint slot P.entrySize slot' P.entrySize := by
  obtain ⟨page, hpage, idx, hidx, rfl⟩ := he
  obtain ⟨page', hpage', idx', hidx', rfl⟩ := he'
  have hlt := (hinv.idx_lt hpage hidx).2
  have hlt' := (hinv.idx_lt hpage' hidx').2
  by_cases hsame : page = page'
  · rw [← hsame] at hidx' ⊢
    rcases Nat.lt_trichotomy idx idx' with hbefore | rfl | hafter
    · exact Or.inr (slots_apart hbefore hlt')
    · exact Or.inl ⟨rfl, Option.some.inj (hidx.symm.trans hidx')⟩
    · exact Or.inr (rangesDisjoint_symm (slots_apart hafter hlt))
  · exact Or.inr (slots_apart_of_pages (hinv.pages_apart hpage hpage' hsame) hlt hlt')

/-- The slot behind the last one of a page meets no slot in use. -/
theorem PagesInv.new_slot_apart {st : HandleState w} (hinv : PagesInv P st)
    {page : FunchookPage w} (hpage : page ∈ st.fh.pageList)
    (hused : page.used < P.numEntriesInPage) {slot : Addr w} {e : FunchookEntry w}
    (he : EntryAt P st.fh slot e) :
    RangesDisjoint slot P.entrySize (P.slotAddr page.addr page.used) P.entrySize := by
  obtain ⟨page', hpage', idx, hidx, rfl⟩ := he
  obtain ⟨hlt, hbound⟩ := hinv.idx_lt hpage' hidx
  by_cases hsame : page' = page
  · rw [hsame] at hlt ⊢
    exact slots_apart hlt hused
  · exact slots_apart_of_pages (hinv.pages_apart hpage' hpage hsame) hbound hused

/-- `get_page` adds no entry: a page it maps is empty. -/
theorem entryAt_foundPage {fh : FunchookT w} {s s' : World w} {addr : Addr w}
    {disp : P.IpDisplacement} {answer : AllocAnswer w} {pages : List (FunchookPage w)} {idx : ℕ}
    {page : FunchookPage w} (h : FoundPage P fh s addr disp answer pages idx page s')
    {slot : Addr w} {e : FunchookEntry w} :
    EntryAt P { fh with pageList := pages } slot e ↔ EntryAt P fh slot e := by
  cases h with
  | reused => exact Iff.rfl
  | fresh =>
    constructor
    · rintro ⟨page, hpage, j, hj, hslot⟩
      rcases List.mem_cons.mp hpage with rfl | hpage
      · cases hj
      · exact ⟨page, hpage, j, hj, hslot⟩
    · rintro ⟨page, hpage, j, hj, hslot⟩
      exact ⟨page, List.mem_cons_of_mem _ hpage, j, hj, hslot⟩

/-- `get_page` keeps the invariant: a page it maps is new, empty and apart from the others. -/
theorem pagesInv_foundPage {st : HandleState w} (hinv : PagesInv P st) {addr : Addr w}
    {disp : P.IpDisplacement} {answer : AllocAnswer w} (hfresh : answer.Fresh P st.world)
    {pages : List (FunchookPage w)} {idx : ℕ} {page : FunchookPage w} {s' : World w}
    (h : FoundPage P st.fh st.world addr disp answer pages idx page s') :
    PagesInv P ⟨{ st.fh with pageList := pages }, s', st.installFailed⟩ := by
  have hentry := @entryAt_foundPage w P st.fh st.world s' addr disp answer pages idx page h
  cases h with
  | reused => exact ⟨hinv.used, hinv.mapped, hinv.apart, hinv.stored, hinv.transit, hinv.trampoline⟩
  | @fresh p hp =>
    have hnew := hfresh p hp
    refine ⟨?_, ?_, ?_, ?_, hinv.transit, hinv.trampoline⟩
    · intro page hpage
      rcases List.mem_cons.mp hpage with rfl | hpage
      · exact Nat.zero_le _
      · exact hinv.used page hpage
    · intro page hpage a ha
      rcases List.mem_cons.mp hpage with rfl | hpage
      · exact mapPage_mapped_of_inRange _ ha
      · exact mapPage_mapped_of_mapped (hinv.mapped page hpage a ha) ..
    · refine List.pairwise_cons.mpr ⟨fun q hq a ha ha' => ?_, hinv.apart⟩
      obtain ⟨page, hpage, rfl⟩ := List.mem_map.mp hq
      have hmapped := hinv.mapped page hpage a ha'
      rw [hnew a ha] at hmapped
      cases hmapped
    · intro slot e he
      have he' := hentry.mp he
      refine slotHolds_congr (hinv.transit e he'.mem) (hinv.trampoline e he'.mem) (fun a ha => ?_)
        (hinv.stored slot e he')
      exact mapPage_bytes_of_mapped hnew (hinv.slot_mapped he' ha).1

/-- Filling the slot behind the last one of a page keeps the invariant. -/
theorem pagesInv_fill {st : HandleState w} (hinv : PagesInv P st) {idx : ℕ}
    {page : FunchookPage w} (hget : st.fh.pageList[idx]? = some page)
    (hused : page.used < P.numEntriesInPage) {e : FunchookEntry w}
    (ht : e.transit.length ≤ P.transitByteSize) (hr : e.trampoline.length ≤ P.trampolineByteSize) :
    PagesInv P ⟨{ st.fh with pageList := addEntry st.fh.pageList idx e },
      storeEntry P st.world (P.slotAddr page.addr page.used) e, st.installFailed⟩ := by
  have hpage := List.mem_of_getElem? hget
  have hmem : ∀ q ∈ addEntry st.fh.pageList idx e, ∃ q₀ ∈ st.fh.pageList, q₀.addr = q.addr ∧
      (q.used = q₀.used ∨ q.used = q₀.used + 1 ∧ q₀ = page) := by
    intro q hq
    obtain ⟨i, hi⟩ := List.mem_iff_getElem?.mp hq
    rw [getElem?_addEntry] at hi
    obtain ⟨q₀, hq₀, rfl⟩ := Option.map_eq_some_iff.mp hi
    by_cases hidx : idx = i
    · rw [← hidx, hget] at hq₀
      rw [if_pos hidx]
      exact ⟨q₀, Option.some.inj hq₀ ▸ hpage, rfl,
        Or.inr ⟨List.length_append, (Option.some.inj hq₀).symm⟩⟩
    · rw [if_neg hidx]
      exact ⟨q₀, List.mem_of_getElem? hq₀, rfl, Or.inl rfl⟩
  have hentry : ∀ slot' e', EntryAt P { st.fh with pageList := addEntry st.fh.pageList idx e }
      slot' e' ↔ EntryAt P st.fh slot' e' ∨ (slot' = P.slotAddr page.addr page.used ∧ e' = e) :=
    fun slot' e' => entryAt_addEntry hget rfl
  refine ⟨fun q hq => ?_, fun q hq a ha => ?_, ?_, fun slot' e' he => ?_, fun e' he => ?_,
    fun e' he => ?_⟩
  · obtain ⟨q₀, hq₀, -, hsame | ⟨hmore, rfl⟩⟩ := hmem q hq
    · exact hsame ▸ hinv.used q₀ hq₀
    · exact hmore ▸ hused
  · obtain ⟨q₀, hq₀, haddr, -⟩ := hmem q hq
    exact hinv.mapped q₀ hq₀ a (haddr ▸ ha)
  · rw [map_addr_addEntry]
    exact hinv.apart
  · rcases (hentry slot' e').mp he with hold | ⟨rfl, rfl⟩
    · refine slotHolds_congr (hinv.transit e' hold.mem) (hinv.trampoline e' hold.mem)
        (fun a ha => ?_) (hinv.stored slot' e' hold)
      exact storeEntry_frame ht hr fun hin => hinv.new_slot_apart hpage hused hold a ha hin
    · exact storeEntry_holds ht hr
  · rcases mem_addEntry he with rfl | hold
    · exact ht
    · exact hinv.transit e' hold
  · rcases mem_addEntry he with rfl | hold
    · exact hr
    · exact hinv.trampoline e' hold

/-! ## Calls -/

/-- Every entry stays in its slot, and no byte of the slot changes. -/
def SlotsKept (P : Platform w) (st st' : HandleState w) : Prop :=
  ∀ slot e, EntryAt P st.fh slot e → EntryAt P st'.fh slot e ∧
    ∀ a, InRange slot P.entrySize a → st'.world.bytes a = st.world.bytes a

theorem slotsKept_refl (P : Platform w) (st : HandleState w) : SlotsKept P st st :=
  fun _ _ he => ⟨he, fun _ _ => rfl⟩

theorem SlotsKept.trans {st₁ st₂ st₃ : HandleState w} (h : SlotsKept P st₁ st₂)
    (h' : SlotsKept P st₂ st₃) : SlotsKept P st₁ st₃ := by
  intro slot e he
  obtain ⟨he₂, hbytes⟩ := h slot e he
  obtain ⟨he₃, hbytes'⟩ := h' slot e he₂
  exact ⟨he₃, fun a ha => (hbytes' a ha).trans (hbytes a ha)⟩

/-- A call that keeps the contents of the page list, the mapped bytes and the bytes of the pages. -/
theorem pagesInv_of_contents {st st' : HandleState w} (hinv : PagesInv P st)
    (hc : pageContents st'.fh.pageList = pageContents st.fh.pageList)
    (hm : ∀ a, st.world.mapped a = true → st'.world.mapped a = true)
    (hb : ∀ page ∈ st.fh.pageList, ∀ a, InRange page.addr P.pageSize a →
      st'.world.bytes a = st.world.bytes a) : PagesInv P st' ∧ SlotsKept P st st' := by
  have hpage : ∀ q ∈ st'.fh.pageList, ∃ q₀ ∈ st.fh.pageList, q₀.addr = q.addr ∧
      q₀.entries = q.entries := by
    intro q hq
    have hmem : (q.addr, q.entries) ∈ pageContents st.fh.pageList :=
      hc ▸ List.mem_map_of_mem (f := fun q : FunchookPage w => (q.addr, q.entries)) hq
    obtain ⟨q₀, hq₀, heq⟩ := List.mem_map.mp hmem
    exact ⟨q₀, hq₀, congrArg Prod.fst heq, congrArg Prod.snd heq⟩
  have haddr : st'.fh.pageList.map FunchookPage.addr = st.fh.pageList.map FunchookPage.addr := by
    have hfst := congrArg (List.map Prod.fst) hc
    simpa [pageContents, Function.comp_def] using hfst
  have hentries : st'.fh.entries = st.fh.entries := flatMap_entries_eq hc
  have hslot : ∀ slot e, EntryAt P st.fh slot e → ∀ a, InRange slot P.entrySize a →
      st'.world.bytes a = st.world.bytes a := by
    intro slot e he a ha
    obtain ⟨-, page, hpage, hin⟩ := hinv.slot_mapped he ha
    exact hb page hpage a hin
  refine ⟨⟨fun q hq => ?_, fun q hq a ha => ?_, haddr ▸ hinv.apart, fun slot e he => ?_,
    hentries ▸ hinv.transit, hentries ▸ hinv.trampoline⟩,
    fun slot e he => ⟨entryAt_congr hc.symm he, hslot slot e he⟩⟩
  · obtain ⟨q₀, hq₀, -, hsame⟩ := hpage q hq
    rw [FunchookPage.used, ← hsame]
    exact hinv.used q₀ hq₀
  · obtain ⟨q₀, hq₀, hsame, -⟩ := hpage q hq
    exact hm a (hinv.mapped q₀ hq₀ a (hsame ▸ ha))
  · have he' := entryAt_congr hc he
    exact slotHolds_congr (hinv.transit e he'.mem) (hinv.trampoline e he'.mem) (hslot slot e he')
      (hinv.stored slot e he')

/-- The prepare has filled a slot that meets no slot in use with the entry for the function and the
parameters, and hands out its trampoline. -/
def FillsNewSlot (P : Platform w) (fh : FunchookT w) (s : World w) (targetFunc : Addr w)
    (params : FunchookParams w) (r : PrepareResult w) : Prop :=
  ∃ slot e, r.targetFunc = P.trampolineAddr slot ∧ EntryMade P s targetFunc params slot e ∧
    EntryAt P r.fh slot e ∧
    ∀ slot' e', EntryAt P fh slot' e' → RangesDisjoint slot' P.entrySize slot P.entrySize

/-- The entries after a prepare that fills one. -/
theorem entryAt_prepared {fh : FunchookT w} {s : World w} {targetFunc : Addr w}
    {params : FunchookParams w} {answer : AllocAnswer w} {r : PrepareResult w}
    (p : Prepared P fh s targetFunc params answer r) {slot' : Addr w} {e' : FunchookEntry w} :
    EntryAt P r.fh slot' e' ↔ EntryAt P fh slot' e' ∨
      (slot' = P.slotAddr p.page.addr p.page.used ∧ e' = p.entry) := by
  have hsame := @entryAt_foundPage _ _ _ _ _ _ _ _ _ _ _ p.found slot' e'
  have hentry := @entryAt_addEntry w P { fh with pageList := p.pages } r.fh p.idx p.page p.entry
    p.found.get (congrArg (fun q : PrepareResult w => q.fh.pageList) p.result) slot' e'
  rw [hentry, hsame]

/-- What a prepare that fills an entry does to the pages. -/
theorem pagesInv_prepared {st : HandleState w} (hinv : PagesInv P st) {targetFunc : Addr w}
    {params : FunchookParams w} {answer : AllocAnswer w} {r : PrepareResult w}
    (hfresh : answer.Fresh P st.world)
    (p : Prepared P st.fh st.world targetFunc params answer r) (flag : Bool) :
    PagesInv P ⟨r.fh, r.world, flag⟩ ∧ SlotsKept P st ⟨r.fh, r.world, flag⟩ ∧
      FillsNewSlot P st.fh st.world targetFunc params r := by
  have hfound := pagesInv_foundPage hinv hfresh p.found
  have hget := p.found.get
  have hused := p.found.used_lt
  have ht : p.entry.transit.length ≤ P.transitByteSize := by
    rw [p.entry_eq, preparedEntry_transit_length]
  have hr : p.entry.trampoline.length ≤ P.trampolineByteSize :=
    p.entry_eq ▸ preparedEntry_trampoline_length ..
  have hfill := pagesInv_fill hfound hget hused ht hr
  have hapart : ∀ slot' e', EntryAt P st.fh slot' e' →
      RangesDisjoint slot' P.entrySize (P.slotAddr p.page.addr p.page.used) P.entrySize :=
    fun slot' e' he => hfound.new_slot_apart (List.mem_of_getElem? hget) hused
      ((entryAt_foundPage p.found).mpr he)
  have hentry : ∀ slot' e', EntryAt P r.fh slot' e' ↔ EntryAt P st.fh slot' e' ∨
      (slot' = P.slotAddr p.page.addr p.page.used ∧ e' = p.entry) :=
    fun _ _ => entryAt_prepared p
  refine ⟨?_, fun slot' e' he => ⟨(hentry slot' e').mpr (Or.inl he), fun a ha => ?_⟩,
    ⟨_, p.entry, congrArg PrepareResult.targetFunc p.result, p.made,
      (hentry _ _).mpr (Or.inr ⟨rfl, rfl⟩), hapart⟩⟩
  · rw [p.result]
    exact ⟨hfill.used, hfill.mapped, hfill.apart, hfill.stored, hfill.transit, hfill.trampoline⟩
  · have hbytes := congrArg (fun q : PrepareResult w => q.world.bytes a) p.result
    refine hbytes.trans ?_
    show (storeEntry P p.world _ p.entry).bytes a = st.world.bytes a
    rw [storeEntry_frame ht hr fun hin => hapart slot' e' he a ha hin]
    exact (foundPage_bytes hfresh p.found (hinv.slot_mapped he ha).1).1

theorem pagesInv_prepare {st : HandleState w} (hinv : PagesInv P st) {targetFunc : Addr w}
    {params : FunchookParams w} {answer : AllocAnswer w} {r : PrepareResult w}
    (hfresh : answer.Fresh P st.world)
    (h : funchookPrepareInternal P st.fh st.world targetFunc params answer = some r) (flag : Bool) :
    PagesInv P ⟨r.fh, r.world, flag⟩ ∧ SlotsKept P st ⟨r.fh, r.world, flag⟩ := by
  rcases prepare_cases h with href | ⟨⟨p⟩⟩
  · refine pagesInv_of_contents hinv ?_ (fun a ha => ?_) (fun page hpage a ha => ?_)
    · exact congrArg pageContents href.pageList
    · exact (failedPrepareWorld_bytes hfresh href.world ha).2
    · exact (failedPrepareWorld_bytes hfresh href.world (hinv.mapped page hpage a ha)).1
  · obtain ⟨hkept, hslots, -⟩ := pagesInv_prepared hinv hfresh p flag
    exact ⟨hkept, hslots⟩

/-- **Step.** Every call keeps the pages and the slots in use. -/
theorem pagesInv_step {st st' : HandleState w} {c : Call w} (hinv : PagesInv P st)
    (hcond : TargetsOutside P st.fh) (hstep : HandleStep P st c st') :
    PagesInv P st' ∧ SlotsKept P st st' := by
  obtain ⟨hfresh, hcall⟩ := hstep
  obtain ⟨r, hr, rfl⟩ := Option.map_eq_some_iff.mp hcall
  have houtside : ∀ e ∈ st.fh.entries, ∀ page ∈ st.fh.pageList, ∀ a,
      InRange page.addr P.pageSize a → ¬ P.TargetByte e a :=
    fun e he page hpage a ha hta => hcond e he page hpage a hta ha
  cases c with
  | prepare targetFunc hookFunc answer =>
    obtain ⟨q, hq, rfl⟩ := Option.map_eq_some_iff.mp hr
    exact pagesInv_prepare hinv hfresh hq _
  | prepareWithParams targetFunc params answer =>
    obtain ⟨q, hq, rfl⟩ := Option.map_eq_some_iff.mp hr
    exact pagesInv_prepare hinv hfresh hq _
  | install os =>
    cases hr
    cases hinst : st.fh.installed with
    | true =>
      rw [install_installed st.fh st.world os hinst]
      exact pagesInv_of_contents hinv rfl (fun _ ha => ha) (fun _ _ _ _ => rfl)
    | false =>
      obtain ⟨hb, hm, hp, -⟩ := install_spec (P := P) st.fh st.world os hinst
      refine pagesInv_of_contents hinv hp (fun a ha => hm ▸ ha) (fun page hpage a ha => ?_)
      rw [hb]
      exact writeAll_newPatch_frame fun e he =>
        houtside e ((installReach_prefix_entries _ _).subset he) page hpage a ha
  | uninstall os =>
    cases hr
    cases hinst : st.fh.installed with
    | false =>
      rw [uninstall_not_installed st.fh st.world os hinst]
      exact pagesInv_of_contents hinv rfl (fun _ ha => ha) (fun _ _ _ _ => rfl)
    | true =>
      obtain ⟨hb, hm, hp, -⟩ := uninstall_spec (P := P) st.fh st.world os hinst
      refine pagesInv_of_contents hinv hp (fun a ha => hm ▸ ha) (fun page hpage a ha => ?_)
      rw [hb]
      exact writeAll_oldPatch_frame fun e he =>
        houtside e ((uninstallReach_prefix_entries _ _).subset he) page hpage a ha

/-- The runs whose targets lie outside the pages of the handle. -/
abbrev OutsideRun (P : Platform w) : HandleState w → HandleState w → Prop :=
  Run (HandleStep P) fun st _ => TargetsOutside P st.fh

theorem pagesInv_run {st st' : HandleState w} (hinv : PagesInv P st) (hrun : OutsideRun P st st') :
    PagesInv P st' ∧ SlotsKept P st st' := by
  induction hrun with
  | start => exact ⟨hinv, slotsKept_refl P st⟩
  | call _ c hcond hstep ih =>
    obtain ⟨hinv', hkept⟩ := ih
    obtain ⟨hinv₂, hstep'⟩ := pagesInv_step hinv' hcond hstep
    exact ⟨hinv₂, hkept.trans hstep'⟩

/-- What holds of the slots in a state of the handle, and in the states that come after it. -/
structure SlotsSound (P : Platform w) (st : HandleState w) : Prop where
  used : ∀ page ∈ st.fh.pageList, page.used ≤ P.numEntriesInPage
  inside : ∀ page ∈ st.fh.pageList, ∀ idx < P.numEntriesInPage, ∀ a,
    InRange (P.slotAddr page.addr idx) P.entrySize a → InRange page.addr P.pageSize a
  holds : ∀ slot e, EntryAt P st.fh slot e → SlotHolds P st.world.bytes slot e
  prepare : ∀ targetFunc params answer r, answer.Fresh P st.world →
    FailuresNonzero P st.world targetFunc answer →
      funchookPrepareInternal P st.fh st.world targetFunc params answer = some r →
        r.rv = errorSuccess → FillsNewSlot P st.fh st.world targetFunc params r
  stable : ∀ st', OutsideRun P st st' → SlotsKept P st st'

/-- **Slots.** In every state of every run whose targets lie outside the pages of the handle, no
page holds more entries than it has slots, every slot lies inside its page and holds the code of
its entry, a prepare that succeeds fills a slot that no entry uses with the entry for its function
and hands out the trampoline of it, and from then on the entry and the bytes of its slot stay as
they are. -/
theorem entry_slots_sound {s₀ : World w} {st : HandleState w} (hrun : OutsideRun P (.start s₀) st) :
    SlotsSound P st := by
  obtain ⟨hinv, -⟩ := pagesInv_run (pagesInv_start P s₀) hrun
  refine ⟨hinv.used, fun page _ idx hidx a ha => slot_inRange_page hidx ha, hinv.stored, ?_,
    fun st' hrun' => (pagesInv_run hinv hrun').2⟩
  intro targetFunc params answer r hfresh hnonzero h hrv
  obtain ⟨p⟩ := prepare_success hnonzero h hrv
  obtain ⟨-, -, hfills⟩ := pagesInv_prepared hinv hfresh p st.installFailed
  exact hfills

/-- A second function of the sample process, hooked while the page of the first has room. -/
def sampleReused : PrepareResult 64 :=
  (funchookPrepareInternal samplePlatform sampleHandle.fh sampleHandle.world 0x401100
    ⟨0x402100, 0, 0, 0⟩ ⟨.error ⟨errorMemoryAllocation, "mmap"⟩, .ok⟩).get (by decide +kernel)

theorem entry_slots_sound_sample :
    sampleReused.fh.entries.length = 2 ∧
      FillsNewSlot samplePlatform sampleHandle.fh sampleHandle.world 0x401100
        ⟨0x402100, 0, 0, 0⟩ sampleReused := by
  have hrun : OutsideRun samplePlatform (.start X86.sampleWorld)
      ⟨sampleHandle.fh, sampleHandle.world, false⟩ :=
    .call .start (.prepare 0x401000 0x402000 ⟨.ok 0x500000, .ok⟩) (fun e he => by cases he)
      ⟨sample_fresh, rfl⟩
  have hmake : (samplePlatform.funchookMakeTrampoline sampleHandle.world.bytes 0x401100).isOk =
      true := by decide +kernel
  refine ⟨by decide +kernel, (entry_slots_sound hrun).prepare 0x401100 ⟨0x402100, 0, 0, 0⟩
    ⟨.error ⟨errorMemoryAllocation, "mmap"⟩, .ok⟩ sampleReused (fun p hp => by cases hp)
    ⟨fun f hf => ?_, fun f hf => ?_⟩ rfl (by decide +kernel)⟩
  · change samplePlatform.funchookMakeTrampoline sampleHandle.world.bytes 0x401100 = .error f at hf
    rw [hf] at hmake
    cases hmake
  · cases hf
    decide

end Funchook
