import Funchook.DispatchX86
import Funchook.OsUnix

/-!
# Which hook is in effect

A function may be prepared more than once. Install copies the code of every entry to its target, so
the entry that it visits last is the one that the target dispatches to. It visits the newest page
first, and the entries of a page in the order in which they were prepared. So a call of prepare
overrules an earlier one for the same function whose entry is on the same page, and is overruled by
one whose entry is on an older page: which of the two happens depends on the pages only.
-/

namespace Funchook

open ByteMemory Runs

variable {w : ℕ} {P : Platform w}

/-! ## Places -/

/-- The place of an entry: how many pages are older than its page, and its index there. -/
structure Place where
  older : ℕ
  idx : ℕ
  deriving DecidableEq, Repr

/-- Install visits the first place before the second one. -/
def Place.Before (a b : Place) : Prop := b.older < a.older ∨ a.older = b.older ∧ a.idx < b.idx

theorem Place.Before.asymm {a b : Place} (h : a.Before b) : ¬ b.Before a := by
  rintro (h' | h') <;> rcases h with h | h <;> omega

/-- The entry at a place. -/
def entryIn (pages : List (FunchookPage w)) (place : Place) : Option (FunchookEntry w) :=
  pages.reverse[place.older]?.bind fun page => page.entries[place.idx]?

/-- The entries with their places, in the order in which install visits them. -/
def visited : List (FunchookPage w) → List (Place × FunchookEntry w)
  | [] => []
  | page :: older =>
    (page.entries.zipIdx.map fun x => (⟨older.length, x.2⟩, x.1)) ++ visited older

theorem map_snd_visited (pages : List (FunchookPage w)) :
    (visited pages).map Prod.snd = pages.flatMap FunchookPage.entries := by
  induction pages with
  | nil => rfl
  | cons page older ih =>
    have hpage : (page.entries.zipIdx.map fun x => ((⟨older.length, x.2⟩ : Place), x.1)).map
        Prod.snd = page.entries := by
      rw [List.map_map]
      exact List.zipIdx_map_fst 0 page.entries
    rw [visited, List.map_append, hpage, ih, List.flatMap_cons]

theorem entryIn_cons (page : FunchookPage w) (older : List (FunchookPage w)) (place : Place) :
    entryIn (page :: older) place =
      if place.older = older.length then page.entries[place.idx]? else entryIn older place := by
  unfold entryIn
  rw [List.reverse_cons]
  rcases Nat.lt_trichotomy place.older older.length with hlt | heq | hgt
  · rw [if_neg (Nat.ne_of_lt hlt), List.getElem?_append_left (by rwa [List.length_reverse])]
  · rw [if_pos heq, List.getElem?_append_right (by rw [List.length_reverse, heq]), heq,
      List.length_reverse, Nat.sub_self]
    rfl
  · rw [if_neg (Nat.ne_of_gt hgt), List.getElem?_eq_none (by simp; omega),
      List.getElem?_eq_none (by simp; omega)]

theorem entryIn_older_lt {pages : List (FunchookPage w)} {place : Place} {e : FunchookEntry w}
    (h : entryIn pages place = some e) : place.older < pages.length := by
  obtain ⟨page, hpage, -⟩ := Option.bind_eq_some_iff.mp h
  have hlt := (List.getElem?_eq_some_iff.mp hpage).1
  rwa [List.length_reverse] at hlt

theorem mem_visited {pages : List (FunchookPage w)} {place : Place} {e : FunchookEntry w} :
    (place, e) ∈ visited pages ↔ entryIn pages place = some e := by
  induction pages with
  | nil => simp [visited, entryIn]
  | cons page older ih =>
    rw [visited, List.mem_append, ih, entryIn_cons]
    constructor
    · rintro (hpage | holder)
      · obtain ⟨x, hx, heq⟩ := List.mem_map.mp hpage
        cases heq
        rw [if_pos rfl]
        exact List.mem_zipIdx_iff_getElem?.mp hx
      · rw [if_neg (Nat.ne_of_lt (entryIn_older_lt holder))]
        exact holder
    · intro h
      split at h
      · rename_i heq
        refine Or.inl (List.mem_map.mpr ⟨(e, place.idx), List.mem_zipIdx_iff_getElem?.mpr h, ?_⟩)
        rw [← heq]
      · exact Or.inr h

/-- The order of the visits. -/
theorem visited_pairwise (pages : List (FunchookPage w)) :
    (visited pages).Pairwise fun x y => x.1.Before y.1 := by
  induction pages with
  | nil => exact List.Pairwise.nil
  | cons page older ih =>
    rw [visited, List.pairwise_append]
    refine ⟨?_, ih, ?_⟩
    · rw [List.pairwise_map, List.pairwise_iff_getElem]
      intro i j hi hj hlt
      rw [List.getElem_zipIdx, List.getElem_zipIdx]
      exact Or.inr ⟨rfl, by simpa using hlt⟩
    · intro x hx y hy
      obtain ⟨z, -, rfl⟩ := List.mem_map.mp hx
      exact Or.inl (entryIn_older_lt (mem_visited.mp hy))

/-! ## The entry in effect -/

/-- The place of the last entry that install copies to the function. -/
def lastVisited (pages : List (FunchookPage w)) (func : Addr w) : Option Place :=
  ((visited pages).reverse.find? fun x => decide (x.2.targetFunc = func)).map Prod.fst

theorem Place.eq_of_not_before {a b : Place} (hab : ¬ a.Before b) (hba : ¬ b.Before a) : a = b := by
  obtain ⟨i, k⟩ := a
  obtain ⟨j, l⟩ := b
  have hle : i = j ∧ k = l := by
    simp only [Place.Before, not_or, not_and, not_lt] at hab hba
    omega
  rw [hle.1, hle.2]

/-- Every other entry for the function is visited before the one that is found. -/
theorem lastVisited_spec {pages : List (FunchookPage w)} {func : Addr w} {place : Place}
    (h : lastVisited pages func = some place) :
    (∃ e, entryIn pages place = some e ∧ e.targetFunc = func) ∧
      ∀ place' e', entryIn pages place' = some e' → e'.targetFunc = func →
        ¬ place.Before place' := by
  have hpairwise : (visited pages).reverse.Pairwise fun x y => y.1.Before x.1 :=
    List.pairwise_reverse.mpr (visited_pairwise pages)
  obtain ⟨⟨place, e⟩, hfind, rfl⟩ := Option.map_eq_some_iff.mp h
  obtain ⟨hfunc, behind, front, hlist, hbehind⟩ := List.find?_eq_some_iff_append.mp hfind
  have hmem : (place, e) ∈ (visited pages).reverse := by simp [hlist]
  refine ⟨⟨e, mem_visited.mp (List.mem_reverse.mp hmem), of_decide_eq_true hfunc⟩, ?_⟩
  intro place' e' he' hfunc' hbefore
  have hmem' : (place', e') ∈ behind ++ (place, e) :: front := by
    rw [← hlist]
    exact List.mem_reverse.mpr (mem_visited.mpr he')
  rw [hlist, List.pairwise_append, List.pairwise_cons] at hpairwise
  obtain ⟨-, ⟨hfront, -⟩, -⟩ := hpairwise
  rcases List.mem_append.mp hmem' with hin | hin
  · have hnot := hbehind _ hin
    rw [decide_eq_true hfunc'] at hnot
    cases hnot
  · rcases List.mem_cons.mp hin with heq | hin
    · cases heq
      exact hbefore.asymm hbefore
    · exact hbefore.asymm (hfront _ hin)

theorem lastVisited_isSome {pages : List (FunchookPage w)} {place : Place} {e : FunchookEntry w}
    (he : entryIn pages place = some e) : (lastVisited pages e.targetFunc).isSome := by
  rw [lastVisited, Option.isSome_map, List.find?_isSome]
  exact ⟨(place, e), List.mem_reverse.mpr (mem_visited.mpr he), decide_eq_true rfl⟩

/-- **The last visit** to a function is to its entry on the oldest page, and on that page to the
last one. -/
theorem lastVisited_iff {pages : List (FunchookPage w)} {place : Place} {e : FunchookEntry w}
    (he : entryIn pages place = some e) :
    lastVisited pages e.targetFunc = some place ↔
      ∀ place' e', entryIn pages place' = some e' → e'.targetFunc = e.targetFunc →
        ¬ place.Before place' := by
  constructor
  · intro h
    exact (lastVisited_spec h).2
  · intro hlast
    obtain ⟨place', h⟩ := Option.isSome_iff_exists.mp (lastVisited_isSome he)
    obtain ⟨⟨e', he', hfunc'⟩, hlast'⟩ := lastVisited_spec h
    rw [h, Place.eq_of_not_before (hlast place' e' he' hfunc') (hlast' place e he rfl)]

/-! ## Runs of prepares -/

/-- A call of prepare: the pointer that it is given, the function that the pointer resolves to, and
the parameters. -/
structure PrepareCall (w : ℕ) where
  targetFunc : Addr w
  func : Addr w
  params : FunchookParams w

/-- Where a prepare for the function puts its entry. -/
def placeOf (P : Platform w) (fh : FunchookT w) (s : World w) (func : Addr w)
    (answer : AllocAnswer w) : Option Place :=
  match P.funchookMakeTrampoline s.bytes func with
  | .error _ => none
  | .ok (disp, _) =>
    match getPage P fh s func disp answer with
    | .fail _ _ => none
    | .got pageList idx _ =>
      pageList[idx]?.map fun page => ⟨pageList.length - (idx + 1), page.used⟩

/-- The calls have been made in their order on a new handle; all were successful, and their entries
are at the places. -/
inductive Prepares (P : Platform w) (s₀ : World w) :
    List (PrepareCall w) → List Place → HandleState w → Prop where
  | start : Prepares P s₀ [] [] (.start s₀)
  | prepare {calls : List (PrepareCall w)} {places : List Place} {st : HandleState w}
      (h : Prepares P s₀ calls places st) (call : PrepareCall w) (answer : AllocAnswer w)
      {r : PrepareResult w} {place : Place}
      (hresolve : P.funchookResolveFunc st.world.bytes call.targetFunc = call.func)
      (hfresh : answer.Fresh P st.world)
      (hcall : funchookPrepareInternal P st.fh st.world call.targetFunc call.params answer = some r)
      (hrv : r.rv = errorSuccess)
      (hplace : placeOf P st.fh st.world call.func answer = some place) :
      Prepares P s₀ (calls ++ [call]) (places ++ [place]) ⟨r.fh, r.world, st.installFailed⟩

/-- The entry is one that a call of prepare makes. -/
def MadeFor (P : Platform w) (call : PrepareCall w) (e : FunchookEntry w) : Prop :=
  ∃ s disp trampoline slot,
    e = preparedEntry P s call.targetFunc call.func call.params disp trampoline slot

theorem MadeFor.targetFunc {call : PrepareCall w} {e : FunchookEntry w} (h : MadeFor P call e) :
    e.targetFunc = call.func := by
  obtain ⟨s, disp, trampoline, slot, rfl⟩ := h
  exact preparedEntry_targetFunc ..

/-- The prepare adds one entry, at the place. -/
theorem prepare_placed {fh : FunchookT w} {s : World w} {call : PrepareCall w}
    {answer : AllocAnswer w} {r : PrepareResult w} {place : Place} (hinst : fh.installed = false)
    (hresolve : P.funchookResolveFunc s.bytes call.targetFunc = call.func)
    (hcall : funchookPrepareInternal P fh s call.targetFunc call.params answer = some r)
    (hplace : placeOf P fh s call.func answer = some place) :
    ∃ disp pages idx page world e, FoundPage P fh s call.func disp answer pages idx page world ∧
      r.fh = { fh with pageList := addEntry pages idx e } ∧ MadeFor P call e ∧
        place = ⟨pages.length - (idx + 1), page.used⟩ := by
  unfold placeOf at hplace
  unfold funchookPrepareInternal at hcall
  rw [if_neg (by rw [hinst]; decide), hresolve] at hcall
  dsimp only at hcall
  split at hplace
  · cases hplace
  · rename_i disp trampoline hmake
    rw [hmake] at hcall
    dsimp only at hcall
    rcases getPage_spec fh s call.func disp answer with
      ⟨f, s', hget, -, -⟩ | ⟨pages, idx, page, s', hget, hfound⟩
    · rw [hget] at hplace
      cases hplace
    · rw [hget] at hplace hcall
      dsimp only at hplace hcall
      rw [hfound.get] at hplace hcall
      dsimp only at hcall
      split at hcall
      · cases hcall
        cases hplace
        exact ⟨disp, pages, idx, page, s', _, hfound, rfl, ⟨_, _, _, _, rfl⟩, rfl⟩
      · cases hcall

/-- The new place is behind the last entry of its page. -/
theorem entryIn_addEntry {pages : List (FunchookPage w)} {idx : ℕ} {page : FunchookPage w}
    (hget : pages[idx]? = some page) (e : FunchookEntry w) (place : Place) :
    entryIn (addEntry pages idx e) place =
      if place = ⟨pages.length - (idx + 1), page.used⟩ then some e else entryIn pages place := by
  have hlt := (List.getElem?_eq_some_iff.mp hget).1
  have hlen : (addEntry pages idx e).length = pages.length := List.length_modify ..
  obtain ⟨older, k⟩ := place
  by_cases hin : older < pages.length
  · have hpage : (addEntry pages idx e).reverse[older]? =
        (pages.reverse[older]?).map fun q =>
          if older = pages.length - (idx + 1) then { q with entries := q.entries ++ [e] }
          else q := by
      rw [List.getElem?_reverse (by rw [hlen]; exact hin), List.getElem?_reverse hin, hlen,
        getElem?_addEntry]
      have hsame : idx = pages.length - 1 - older ↔ older = pages.length - (idx + 1) := by omega
      simp only [hsame]
    unfold entryIn
    rw [hpage]
    by_cases holder : older = pages.length - (idx + 1)
    · have hreverse : pages.reverse[older]? = some page := by
        rw [List.getElem?_reverse hin, ← hget]
        exact congrArg (pages[·]?) (by omega)
      rw [hreverse, Option.map_some, if_pos holder, Option.bind_some, Option.bind_some]
      show (page.entries ++ [e])[k]? = _
      by_cases hk : k = page.used
      · rw [if_pos (by rw [holder, hk]), hk, FunchookPage.used, List.getElem?_concat_length]
      · rw [if_neg fun h => hk (congrArg Place.idx h)]
        have hne : k ≠ page.entries.length := hk
        rcases Nat.lt_or_gt_of_ne hne with hbelow | habove
        · exact List.getElem?_append_left hbelow
        · rw [List.getElem?_eq_none (by rw [List.length_append, List.length_singleton]; omega)]
          exact (List.getElem?_eq_none (Nat.le_of_lt habove)).symm
    · rw [if_neg fun h => holder (congrArg Place.older h)]
      simp only [if_neg holder, Option.map_id']
  · have hnone : ∀ l : List (FunchookPage w), l.length = pages.length →
        entryIn l ⟨older, k⟩ = none := by
      intro l hl
      unfold entryIn
      rw [List.getElem?_eq_none (by rw [List.length_reverse, hl]; exact Nat.le_of_not_lt hin)]
      rfl
    rw [hnone _ hlen, hnone pages rfl, if_neg]
    intro h
    have hout : older = pages.length - (idx + 1) := congrArg Place.older h
    omega

/-- A page that is put at the head of the list changes no place. -/
theorem FoundPage.entryIn {fh : FunchookT w} {s s' : World w} {addr : Addr w}
    {disp : P.IpDisplacement} {answer : AllocAnswer w} {pages : List (FunchookPage w)} {idx : ℕ}
    {page : FunchookPage w} (h : FoundPage P fh s addr disp answer pages idx page s')
    (place : Place) : entryIn pages place = entryIn fh.pageList place := by
  cases h with
  | reused => rfl
  | fresh =>
    rw [entryIn_cons]
    split
    · rename_i holder
      have hnone : fh.pageList.reverse[place.older]? = none :=
        List.getElem?_eq_none (by rw [List.length_reverse, holder])
      rw [Funchook.entryIn, hnone]
      rfl
    · rfl

/-- The calls and the places of their entries. -/
structure Placed (P : Platform w) (calls : List (PrepareCall w)) (places : List Place)
    (fh : FunchookT w) : Prop where
  not_installed : fh.installed = false
  length : places.length = calls.length
  entry : ∀ (i : ℕ) (call : PrepareCall w) (place : Place), calls[i]? = some call →
    places[i]? = some place →
      ∃ e, entryIn fh.pageList place = some e ∧ MadeFor P call e
  all : ∀ place e, entryIn fh.pageList place = some e → place ∈ places
  order : ∀ (i j : ℕ) (a b : Place), i < j → places[i]? = some a → places[j]? = some b →
    a.older = b.older → a.idx < b.idx

theorem placed_start (P : Platform w) : Placed P [] [] funchookCreate where
  not_installed := rfl
  length := rfl
  entry := by simp
  all := by simp [entryIn, funchookCreate]
  order := by simp

/-- **Step.** The entry of a prepare is behind those that are on its page already. -/
theorem Placed.prepare {calls : List (PrepareCall w)} {places : List Place} {fh : FunchookT w}
    (hinv : Placed P calls places fh) {s : World w} {call : PrepareCall w} {answer : AllocAnswer w}
    {r : PrepareResult w} {place : Place}
    (hresolve : P.funchookResolveFunc s.bytes call.targetFunc = call.func)
    (hcall : funchookPrepareInternal P fh s call.targetFunc call.params answer = some r)
    (hplace : placeOf P fh s call.func answer = some place) :
    Placed P (calls ++ [call]) (places ++ [place]) r.fh := by
  obtain ⟨disp, pages, idx, page, world, e, hfound, hfh, hmade, hnew⟩ :=
    prepare_placed hinv.not_installed hresolve hcall hplace
  have hentry : ∀ q, entryIn r.fh.pageList q =
      if q = place then some e else entryIn fh.pageList q := by
    intro q
    rw [hfh, hnew, ← hfound.entryIn]
    exact entryIn_addEntry hfound.get e q
  -- entries that are on the page already have smaller indices
  have hbehind : ∀ a e', entryIn fh.pageList a = some e' → a.older = place.older →
      a.idx < place.idx := by
    intro a e' ha holder
    rw [← hfound.entryIn] at ha
    obtain ⟨page', hpage', hidx⟩ := Option.bind_eq_some_iff.mp ha
    have hlt := (List.getElem?_eq_some_iff.mp hfound.get).1
    rw [hnew] at holder
    have hreverse : pages.reverse[a.older]? = some page := by
      have hin : a.older < pages.length := by
        rw [holder]
        show pages.length - (idx + 1) < pages.length
        omega
      rw [List.getElem?_reverse hin, ← hfound.get, holder]
      exact congrArg (pages[·]?) (by dsimp only; omega)
    rw [hreverse] at hpage'
    cases hpage'
    rw [hnew]
    exact (List.getElem?_eq_some_iff.mp hidx).1
  refine ⟨?_, ?_, ?_, ?_, ?_⟩
  · rw [hfh]
    exact hinv.not_installed
  · rw [List.length_append, List.length_append, hinv.length]
    rfl
  · intro i c q hc hq
    rcases Nat.lt_trichotomy i calls.length with hlt | rfl | hgt
    · rw [List.getElem?_append_left hlt] at hc
      rw [List.getElem?_append_left (by rw [hinv.length]; exact hlt)] at hq
      obtain ⟨e', he', hmade'⟩ := hinv.entry i c q hc hq
      rw [hentry]
      split
      · rename_i heq
        have hself := hbehind q e' he' (by rw [heq])
        rw [heq] at hself
        exact absurd hself (Nat.lt_irrefl _)
      · exact ⟨e', he', hmade'⟩
    · rw [List.getElem?_concat_length] at hc
      rw [← hinv.length, List.getElem?_concat_length] at hq
      cases hc
      cases hq
      exact ⟨e, by rw [hentry, if_pos rfl], hmade⟩
    · rw [List.getElem?_eq_none (by simp; omega)] at hc
      cases hc
  · intro q e' hq
    rw [hentry] at hq
    split at hq
    · rename_i heq
      rw [heq]
      exact List.mem_append_right _ List.mem_cons_self
    · exact List.mem_append_left _ (hinv.all q e' hq)
  · intro i j a b hlt ha hb holder
    have hj := (List.getElem?_eq_some_iff.mp hb).1
    rw [List.length_append, List.length_singleton] at hj
    have hi : i < places.length := by omega
    rw [List.getElem?_append_left hi] at ha
    rcases Nat.lt_or_ge j places.length with hjlt | hjge
    · rw [List.getElem?_append_left hjlt] at hb
      exact hinv.order i j a b hlt ha hb holder
    · have hlast : j = places.length := by omega
      rw [hlast, List.getElem?_concat_length] at hb
      cases hb
      obtain ⟨c, hc⟩ : ∃ c, calls[i]? = some c :=
        ⟨_, List.getElem?_eq_getElem (by rw [← hinv.length]; exact hi)⟩
      obtain ⟨e', he', -⟩ := hinv.entry i c a hc ha
      exact hbehind a e' he' holder

/-- **Run.** -/
theorem Prepares.placed {s₀ : World w} {calls : List (PrepareCall w)} {places : List Place}
    {st : HandleState w} (h : Prepares P s₀ calls places st) : Placed P calls places st.fh := by
  induction h with
  | start => exact placed_start P
  | prepare h call answer hresolve hfresh hcall hrv hplace ih =>
    exact ih.prepare hresolve hcall hplace

/-! ## Overruled calls -/

/-- Another call for the same function has its entry on an older page, or is later and has its entry
on the same page. -/
def Overruled (calls : List (PrepareCall w)) (places : List Place) (i : ℕ) : Prop :=
  ∃ call place j call' place', calls[i]? = some call ∧ places[i]? = some place ∧
    calls[j]? = some call' ∧ places[j]? = some place' ∧ call'.func = call.func ∧
      (place'.older < place.older ∨ place'.older = place.older ∧ i < j)

section Overruled

variable {calls : List (PrepareCall w)} {places : List Place} {fh : FunchookT w}

theorem Placed.before_iff (h : Placed P calls places fh) {i j : ℕ} {a b : Place}
    (ha : places[i]? = some a) (hb : places[j]? = some b) :
    a.Before b ↔ b.older < a.older ∨ b.older = a.older ∧ i < j := by
  constructor
  · rintro (holder | ⟨hsame, hidx⟩)
    · exact Or.inl holder
    · refine Or.inr ⟨hsame.symm, ?_⟩
      rcases Nat.lt_trichotomy i j with hlt | rfl | hgt
      · exact hlt
      · rw [ha] at hb
        cases hb
        exact absurd hidx (Nat.lt_irrefl _)
      · exact absurd (h.order j i b a hgt hb ha hsame.symm) (Nat.lt_asymm hidx)
  · rintro (holder | ⟨hsame, hlt⟩)
    · exact Or.inl holder
    · exact Or.inr ⟨hsame.symm, h.order i j a b hlt ha hb hsame.symm⟩

/-- **Overruling.** The entry of a call is visited last unless another call overrules it. -/
theorem Placed.lastVisited_iff (h : Placed P calls places fh) {i : ℕ} {call : PrepareCall w}
    {place : Place} (hcall : calls[i]? = some call) (hplace : places[i]? = some place) :
    lastVisited fh.pageList call.func = some place ↔ ¬ Overruled calls places i := by
  obtain ⟨e, he, hmade⟩ := h.entry i call place hcall hplace
  have hlast := Funchook.lastVisited_iff he
  rw [hmade.targetFunc] at hlast
  rw [hlast]
  constructor
  · rintro hnot ⟨call', place', j, c, q, hcall', hplace', hc, hq, hfuncs, hover⟩
    rw [hcall] at hcall'
    rw [hplace] at hplace'
    cases hcall'
    cases hplace'
    obtain ⟨e', he', hmade'⟩ := h.entry j c q hc hq
    exact hnot q e' he' (hmade'.targetFunc.trans hfuncs) ((h.before_iff hplace hq).mpr hover)
  · intro hnot q e' he' hfunc' hbefore
    obtain ⟨j, hq⟩ := List.mem_iff_getElem?.mp (h.all q e' he')
    have hj := (List.getElem?_eq_some_iff.mp hq).1
    rw [h.length] at hj
    have hc := List.getElem?_eq_getElem hj
    obtain ⟨e'', he'', hmade'⟩ := h.entry j _ q hc hq
    rw [he'] at he''
    cases he''
    exact hnot ⟨call, place, j, _, q, hcall, hplace, hc, hq, hmade'.targetFunc.symm.trans hfunc',
      (h.before_iff hplace hq).mp hbefore⟩

end Overruled

/-! ## What stands at a function -/

/-- The protection of the pages has no part in the visits. -/
theorem visited_congr {pages pages' : List (FunchookPage w)}
    (h : pageContents pages = pageContents pages') : visited pages = visited pages' := by
  induction pages generalizing pages' with
  | nil =>
    cases pages' with
    | nil => rfl
    | cons page' older' => cases h
  | cons page older ih =>
    cases pages' with
    | nil => cases h
    | cons page' older' =>
      obtain ⟨hpage, holder⟩ := List.cons.inj h
      have hentries : page.entries = page'.entries := congrArg Prod.snd hpage
      have hlen : older.length = older'.length := by
        have hlength := congrArg List.length holder
        rwa [List.length_map, List.length_map] at hlength
      rw [visited, visited, ih holder, hentries, hlen]

theorem lastVisited_congr {pages pages' : List (FunchookPage w)}
    (h : pageContents pages = pageContents pages') (func : Addr w) :
    lastVisited pages func = lastVisited pages' func := by
  rw [lastVisited, lastVisited, visited_congr h]

theorem entryIn_congr {pages pages' : List (FunchookPage w)}
    (h : pageContents pages = pageContents pages') {place : Place} {e : FunchookEntry w} :
    entryIn pages place = some e ↔ entryIn pages' place = some e := by
  rw [← mem_visited, ← mem_visited, visited_congr h]

/-- The code of the entry stands at its function, but for the bytes that the patches of other
functions cover. -/
def CodeStands (P : Platform w) (fh : FunchookT w) (m : Mem w) (e : FunchookEntry w) : Prop :=
  ∀ a b, (P.newPatch e).byteAt a = some b →
    (∀ e' ∈ fh.entries, P.TargetByte e' a → e'.targetFunc = e.targetFunc) → m a = b

/-- The install has succeeded, of the entries for the function it has copied that of call `i` last,
and the code of that entry stands there. -/
structure InEffect (P : Platform w) (calls : List (PrepareCall w)) (places : List Place)
    (r : CallResult w) (func : Addr w) (i : ℕ) : Prop where
  installed : r.rv = errorSuccess
  entry : ∃ call place e, calls[i]? = some call ∧ call.func = func ∧ places[i]? = some place ∧
    lastVisited r.fh.pageList func = some place ∧ entryIn r.fh.pageList place = some e ∧
      MadeFor P call e ∧ CodeStands P r.fh r.world.bytes e

/-- The patched ranges of entries for different functions share no byte. -/
def FunctionsApart (P : Platform w) (fh : FunchookT w) : Prop :=
  ∀ e ∈ fh.entries, ∀ e' ∈ fh.entries, e.targetFunc ≠ e'.targetFunc → PatchesApart P e e'

/-- No entry for the function is visited after the one that is found. -/
theorem lastVisited_split {pages : List (FunchookPage w)} {func : Addr w} {place : Place}
    (h : lastVisited pages func = some place) :
    ∃ before e after, pages.flatMap FunchookPage.entries = before ++ e :: after ∧
      entryIn pages place = some e ∧ e.targetFunc = func ∧
        ∀ e' ∈ after, e'.targetFunc ≠ func := by
  obtain ⟨⟨place, e⟩, hfind, rfl⟩ := Option.map_eq_some_iff.mp h
  obtain ⟨hfunc, behind, front, hlist, hbehind⟩ := List.find?_eq_some_iff_append.mp hfind
  have hmem : (place, e) ∈ visited pages := by
    rw [← List.mem_reverse, hlist]
    exact List.mem_append_right _ List.mem_cons_self
  refine ⟨front.reverse.map Prod.snd, e, behind.reverse.map Prod.snd, ?_, mem_visited.mp hmem,
    of_decide_eq_true hfunc, ?_⟩
  · have hreverse := congrArg List.reverse hlist
    rw [List.reverse_reverse, List.reverse_append, List.reverse_cons] at hreverse
    rw [← map_snd_visited, hreverse]
    simp
  · intro e' he' heq
    obtain ⟨x, hx, rfl⟩ := List.mem_map.mp he'
    have hnot := hbehind x (List.mem_reverse.mp hx)
    rw [decide_eq_true heq] at hnot
    cases hnot

/-- **The code in effect.** After a successful install the code of the entry that is visited last
stands at the function. -/
theorem install_codeStands {fh : FunchookT w} {s : World w} {os : List OsAnswer}
    (hrv : (funchookInstallInternal P fh s os).rv = errorSuccess) {func : Addr w} {place : Place}
    {e : FunchookEntry w} (hlast : lastVisited fh.pageList func = some place)
    (he : entryIn fh.pageList place = some e) :
    CodeStands P fh (funchookInstallInternal P fh s os).world.bytes e := by
  obtain ⟨before, e', after, hlist, he', hfunc, hafter⟩ := lastVisited_split hlast
  rw [he] at he'
  cases he'
  have hentries : fh.entries = before ++ e :: after := hlist
  intro a b hbyte hothers
  have hframe : ∀ e' ∈ after, ¬ P.TargetByte e' a := by
    intro e' hin htarget
    have hmem : e' ∈ fh.entries := by simp [hentries, hin]
    exact hafter e' hin ((hothers e' hmem htarget).trans hfunc)
  rw [install_bytes hrv, hentries, List.map_append, writeAll_append, List.map_cons, writeAll,
    writeAll_newPatch_frame hframe, write_eq_byteAt, hbyte, Option.getD_some]

/-- Patches of other functions that are apart from it leave it as a block. -/
theorem CodeStands.holds {fh : FunchookT w} {m : Mem w} {e : FunchookEntry w}
    (h : CodeStands P fh m e) (hapart : FunctionsApart P fh) (he : e ∈ fh.entries)
    (hsize : (P.newPatch e).code.length ≤ 2 ^ w) :
    Holds m e.targetFunc (P.newPatch e).code := by
  refine holds_of_bytes fun i hi => ?_
  have hcovers : (P.newPatch e).Covers (e.targetFunc + BitVec.ofNat w i) := inRange_add hi hsize
  refine h _ _ (Patch.byteAt_add hi hsize) fun e' he' htarget => ?_
  by_contra hne
  exact hapart e he e' he' (Ne.symm hne) _ (newPatch_covers hcovers) htarget

theorem codeStands_congr {fh fh' : FunchookT w} (h : pageContents fh.pageList =
    pageContents fh'.pageList) {m : Mem w} {e : FunchookEntry w} (hcode : CodeStands P fh m e) :
    CodeStands P fh' m e := by
  intro a b hbyte hothers
  refine hcode a b hbyte fun e' he' => hothers e' ?_
  have hentries : fh.entries = fh'.entries := flatMap_entries_eq h
  rwa [← hentries]

theorem install_pageContents (fh : FunchookT w) (s : World w) (os : List OsAnswer) :
    pageContents (funchookInstallInternal P fh s os).fh.pageList = pageContents fh.pageList := by
  cases hinst : fh.installed with
  | true => rw [install_installed fh s os hinst]
  | false => exact (install_spec (P := P) fh s os hinst).2.2.1

/-- **One run.** After a successful install a call is in effect at its function unless another call
overrules it. -/
theorem Prepares.inEffect_iff {s₀ : World w} {calls : List (PrepareCall w)} {places : List Place}
    {st : HandleState w} (h : Prepares P s₀ calls places st) {os : List OsAnswer}
    (hrv : (funchookInstallInternal P st.fh st.world os).rv = errorSuccess) {func : Addr w}
    {i : ℕ} :
    InEffect P calls places (funchookInstallInternal P st.fh st.world os) func i ↔
      (∃ call, calls[i]? = some call ∧ call.func = func) ∧ ¬ Overruled calls places i := by
  have hpages := install_pageContents (P := P) st.fh st.world os
  have hvisit := lastVisited_congr hpages
  constructor
  · rintro ⟨-, call, place, e, hcall, rfl, hplace, hlast, -⟩
    rw [hvisit] at hlast
    exact ⟨⟨call, hcall, rfl⟩, (h.placed.lastVisited_iff hcall hplace).mp hlast⟩
  · rintro ⟨⟨call, hcall, rfl⟩, hnot⟩
    have hlt := (List.getElem?_eq_some_iff.mp hcall).1
    have hplace := List.getElem?_eq_getElem (l := places) (by rw [h.placed.length]; exact hlt)
    have hlast := (h.placed.lastVisited_iff hcall hplace).mpr hnot
    obtain ⟨e, he, hmade⟩ := h.placed.entry i call _ hcall hplace
    have hcode := codeStands_congr hpages.symm (install_codeStands hrv hlast he)
    exact ⟨hrv, call, _, e, hcall, rfl, hplace, (hvisit _).trans hlast,
      (entryIn_congr hpages).mpr he, hmade, hcode⟩

/-! ## Dispatch on x86 -/

theorem entryAt_of_entryIn {fh : FunchookT w} {place : Place} {e : FunchookEntry w}
    (h : entryIn fh.pageList place = some e) : ∃ slot, EntryAt P fh slot e := by
  obtain ⟨page, hpage, hidx⟩ := Option.bind_eq_some_iff.mp h
  exact ⟨_, page, List.mem_reverse.mp (List.mem_of_getElem? hpage), place.idx, hidx, rfl⟩

theorem Prepares.entriesInv {s₀ : World w} {calls : List (PrepareCall w)} {places : List Place}
    {st : HandleState w} (h : Prepares P s₀ calls places st) : EntriesInv P st := by
  induction h with
  | start => exact entriesInv_start P s₀
  | prepare h call answer hresolve hfresh hcall hrv hplace ih =>
    exact entriesInv_prepare ih hfresh hcall _

namespace X86

/-- **The hook in effect.** On x86 a function dispatches to the hook of the call that is in effect
at it, through the entry of that call. -/
theorem inEffect_dispatches {cpu : Cpu} (b : Build cpu) {s₀ : World cpu.bits}
    {calls : List (PrepareCall cpu.bits)} {places : List Place} {st : HandleState cpu.bits}
    (h : Prepares (platform b) s₀ calls places st) {os : List OsAnswer}
    (hapart : FunctionsApart (platform b) st.fh) (honly : PatchesTrampolinesOnly (platform b) st.fh)
    {func : Addr cpu.bits} {i : ℕ}
    (heffect : InEffect (platform b) calls places
      (funchookInstallInternal (platform b) st.fh st.world os) func i) :
    ∃ call slot e, calls[i]? = some call ∧ e.targetFunc = func ∧
      e.hookFunc = call.params.hookFunc ∧ e.prehook = call.params.prehook ∧
        Dispatches b (funchookInstallInternal (platform b) st.fh st.world os).fh
          (funchookInstallInternal (platform b) st.fh st.world os).world.bytes slot e := by
  obtain ⟨hrv, call, place, e, hcall, rfl, -, -, he, hmade, hstands⟩ := heffect
  have hpages := install_pageContents (P := platform b) st.fh st.world os
  obtain ⟨slot, hentry⟩ := entryAt_of_entryIn (P := platform b) ((entryIn_congr hpages).mp he)
  have hinv := h.entriesInv
  have hcode := entryCode_of_builtFor (hinv.built slot e hentry)
  have hblock := (codeStands_congr hpages hstands).holds hapart hentry.mem (newPatch_size hcode)
  have hinstalled : CodeInstalled (platform b)
      (funchookInstallInternal (platform b) st.fh st.world os).world.bytes slot e :=
    ⟨hblock, install_transit hinv.pages honly hrv hentry⟩
  have hunique := hinv.pages.slotsUnique (entrySize_pos b)
  have hafter : ∀ slot e, EntryAt (platform b)
      (funchookInstallInternal (platform b) st.fh st.world os).fh slot e ↔
        EntryAt (platform b) st.fh slot e :=
    fun _ _ => install_entryAt st.fh st.world os
  refine ⟨call, slot, e, hcall, hmade.targetFunc, ?_, ?_, dispatches_of_code hcode hinstalled
    (fun slot e e' he he' => hunique slot e e' ((hafter slot e).mp he) ((hafter slot e').mp he'))
    ((hafter slot e).mpr hentry)⟩
  · obtain ⟨s, disp, trampoline, slot, rfl⟩ := hmade
    rfl
  · obtain ⟨s, disp, trampoline, slot, rfl⟩ := hmade
    rfl

end X86

/-! ## Two runs -/

/-- What of a platform is about pages: how many entries a page has and where, and for which
functions a slot can be used. -/
structure Paging (P : Platform w) where
  pageSize : ℕ
  entriesOffset : ℕ
  numEntriesInPage : ℕ
  funchookPageAvail : Addr w → Addr w → P.IpDisplacement → Bool
  pageSize_le : pageSize ≤ 2 ^ w
  numEntries_pos : 0 < numEntriesInPage
  entries_fit : entriesOffset + numEntriesInPage * P.entrySize ≤ pageSize

/-- The platform with other pages. -/
def Platform.withPaging (P : Platform w) (g : Paging P) : Platform w :=
  { P with
    pageSize := g.pageSize
    entriesOffset := g.entriesOffset
    numEntriesInPage := g.numEntriesInPage
    funchookPageAvail := g.funchookPageAvail
    pageSize_le := g.pageSize_le
    numEntries_pos := g.numEntries_pos
    entries_fit := g.entries_fit }

/-- The pages that a platform has. -/
def Platform.paging (P : Platform w) : Paging P :=
  ⟨P.pageSize, P.entriesOffset, P.numEntriesInPage, P.funchookPageAvail, P.pageSize_le,
    P.numEntries_pos, P.entries_fit⟩

/-- **The hook in effect and the pages.** Two runs of the same successful prepares, with whatever
pages and answers of the allocator, and a successful install after each: at every function the same
call is in effect in both if and only if the same calls are overruled in both. -/
theorem same_hooks_iff (P : Platform w) (g g' : Paging P) {s₀ : World w}
    {calls : List (PrepareCall w)} {places places' : List Place} {st st' : HandleState w}
    (h : Prepares (P.withPaging g) s₀ calls places st)
    (h' : Prepares (P.withPaging g') s₀ calls places' st') {os os' : List OsAnswer}
    (hrv : (funchookInstallInternal (P.withPaging g) st.fh st.world os).rv = errorSuccess)
    (hrv' : (funchookInstallInternal (P.withPaging g') st'.fh st'.world os').rv = errorSuccess) :
    (∀ func i,
      InEffect (P.withPaging g) calls places
          (funchookInstallInternal (P.withPaging g) st.fh st.world os) func i ↔
        InEffect (P.withPaging g') calls places'
          (funchookInstallInternal (P.withPaging g') st'.fh st'.world os') func i) ↔
      ∀ i, Overruled calls places i ↔ Overruled calls places' i := by
  constructor
  · intro hsame i
    cases hcall : calls[i]? with
    | none =>
      constructor
      · rintro ⟨call, -, -, -, -, hcall', -⟩
        rw [hcall] at hcall'
        cases hcall'
      · rintro ⟨call, -, -, -, -, hcall', -⟩
        rw [hcall] at hcall'
        cases hcall'
    | some call =>
      have heffect := hsame call.func i
      rw [h.inEffect_iff hrv, h'.inEffect_iff hrv'] at heffect
      have hfunc : ∃ c, calls[i]? = some c ∧ c.func = call.func := ⟨call, hcall, rfl⟩
      rw [and_iff_right hfunc, and_iff_right hfunc] at heffect
      exact not_iff_not.mp heffect
  · intro hsame func i
    rw [h.inEffect_iff hrv, h'.inEffect_iff hrv', hsame i]

/-! ## A function that is prepared twice -/

theorem mapPage_mapped_cases {s : World w} {p : Addr w} {n : ℕ} {a : Addr w}
    (h : (s.mapPage p n).mapped a = true) : s.mapped a = true ∨ InRange p n a := by
  rw [World.mapPage, Bool.or_eq_true, decide_eq_true_eq] at h
  exact h.symm

/-- A prepare maps nothing but the page that it was given. -/
theorem FailedPrepareWorld.mapped_cases {s s' : World w} {answer : AllocAnswer w}
    (h : FailedPrepareWorld P s answer s') {a : Addr w} (ha : s'.mapped a = true) :
    s.mapped a = true ∨ ∃ p, answer.alloc = .ok p ∧ InRange p P.pageSize a := by
  cases h with
  | same => exact Or.inl ha
  | @returned p hp =>
    have hin := (Bool.and_eq_true_iff.mp ha).2
    exact (mapPage_mapped_cases hin).imp_right fun hrange => ⟨p, hp, hrange⟩
  | @leaked p _ hp => exact (mapPage_mapped_cases ha).imp_right fun hrange => ⟨p, hp, hrange⟩

theorem FoundPage.mapped_cases {fh : FunchookT w} {s s' : World w} {addr : Addr w}
    {disp : P.IpDisplacement} {answer : AllocAnswer w} {pages : List (FunchookPage w)} {idx : ℕ}
    {page : FunchookPage w} (h : FoundPage P fh s addr disp answer pages idx page s') {a : Addr w}
    (ha : s'.mapped a = true) :
    s.mapped a = true ∨ ∃ p, answer.alloc = .ok p ∧ InRange p P.pageSize a := by
  cases h with
  | reused => exact Or.inl ha
  | @fresh p hp => exact (mapPage_mapped_cases ha).imp_right fun hrange => ⟨p, hp, hrange⟩

theorem prepare_mapped {fh : FunchookT w} {s : World w} {targetFunc : Addr w}
    {params : FunchookParams w} {answer : AllocAnswer w} {r : PrepareResult w}
    (h : funchookPrepareInternal P fh s targetFunc params answer = some r) {a : Addr w}
    (ha : r.world.mapped a = true) :
    s.mapped a = true ∨ ∃ p, answer.alloc = .ok p ∧ InRange p P.pageSize a := by
  rcases prepare_cases h with href | ⟨⟨p⟩⟩
  · exact href.world.mapped_cases ha
  · rw [p.result] at ha
    exact p.found.mapped_cases ha

/-- A program of less than 512 MB at `0x400000`, and a library of 768 MB at `0x60000000`, with a
function of seven `nop` in each. -/
def wideWorld : World 64 where
  bytes := fun a => if InRange 0x401000 7 a ∨ InRange 0x8fff0000 7 a then 0x90 else 0x06
  mapped := fun a => decide (InRange 0x400000 0x1fc00000 a ∨ InRange 0x60000000 0x30000000 a)

def wideMap : List Unix.Region := [⟨0x400000, 0x20000000⟩, ⟨0x60000000, 0x90000000⟩]

/-- The function of the library is hooked, that of the program, and that of the library again. -/
def repeated : List (PrepareCall 64) :=
  [⟨0x8fff0000, 0x8fff0000, ⟨0x8fff1000, 0, 0, 0⟩⟩, ⟨0x401000, 0x401000, ⟨0x402000, 0, 0, 0⟩⟩,
    ⟨0x8fff0000, 0x8fff0000, ⟨0x8fff2000, 0, 0, 0⟩⟩]

/-- What the allocator answers for a function, from the map that it reads and from what `mmap`
returns for the page behind the function and for the one before it. -/
def unixPage (func : Addr 64) (map : List Unix.Region) (after before : Addr 64) : AllocAnswer 64 :=
  ⟨(Unix.funchookPageAlloc 0x1000
    ⟨fun _ => .ok map, fun _ => ⟨before, ""⟩, fun _ => ⟨after, ""⟩⟩ func).2, .ok⟩

/-- The page behind the library is taken by someone else after the map was read. -/
def pageBefore : AllocAnswer 64 := unixPage 0x8fff0000 wideMap 0x7ffff7ff0000 0x5ffff000

/-- The page behind the library, and then the page behind the program, which the function of the
program needs because the first is out of its reach. -/
def pageBehindLibrary : AllocAnswer 64 := unixPage 0x8fff0000 wideMap 0x90000000 0x5ffff000

def pageBehindProgram : AllocAnswer 64 :=
  unixPage 0x401000 [⟨0x400000, 0x20000000⟩, ⟨0x60000000, 0x90001000⟩] 0x20000000 0x3ff000

theorem pageBefore_alloc : pageBefore.alloc = .ok 0x5ffff000 := rfl

theorem pageBehindLibrary_alloc : pageBehindLibrary.alloc = .ok 0x90000000 := rfl

theorem pageBehindProgram_alloc : pageBehindProgram.alloc = .ok 0x20000000 := rfl

def noPage : AllocAnswer 64 := ⟨.error ⟨errorMemoryAllocation, "mmap"⟩, .ok⟩

def nextPrepared (st : HandleState 64) (call : PrepareCall 64) (answer : AllocAnswer 64) :
    HandleState 64 :=
  match funchookPrepareInternal samplePlatform st.fh st.world call.targetFunc call.params
      answer with
  | some r => ⟨r.fh, r.world, st.installFailed⟩
  | none => st

theorem Prepares.next {calls : List (PrepareCall 64)} {places : List Place} {st : HandleState 64}
    (h : Prepares samplePlatform wideWorld calls places st) (call : PrepareCall 64)
    (answer : AllocAnswer 64) (place : Place) (hfunc : call.targetFunc = call.func)
    (hfresh : answer.Fresh samplePlatform st.world)
    (hrv : (funchookPrepareInternal samplePlatform st.fh st.world call.targetFunc call.params
      answer).map (fun r => r.rv) = some errorSuccess)
    (hplace : placeOf samplePlatform st.fh st.world call.func answer = some place) :
    Prepares samplePlatform wideWorld (calls ++ [call]) (places ++ [place])
      (nextPrepared st call answer) := by
  obtain ⟨r, hcall, hsuccess⟩ := Option.map_eq_some_iff.mp hrv
  have hnext : nextPrepared st call answer = ⟨r.fh, r.world, st.installFailed⟩ := by
    rw [nextPrepared, hcall]
  rw [hnext]
  exact .prepare h call answer hfunc hfresh hcall hsuccess hplace

theorem nextPrepared_mapped {st : HandleState 64} {call : PrepareCall 64} {answer : AllocAnswer 64}
    {a : Addr 64} (ha : (nextPrepared st call answer).world.mapped a = true) :
    st.world.mapped a = true ∨ ∃ p, answer.alloc = .ok p ∧ InRange p samplePlatform.pageSize a := by
  unfold nextPrepared at ha
  split at ha
  · rename_i r hcall
    exact prepare_mapped hcall ha
  · exact Or.inl ha

theorem noPage_fresh (s : World 64) : noPage.Fresh samplePlatform s := by
  intro p hp
  cases hp

/-- A page that touches neither the program nor the library. -/
theorem wideWorld_fresh {p : Addr 64}
    (hprogram : RangesDisjoint p 0x1000 (0x400000 : Addr 64) 0x1fc00000)
    (hlibrary : RangesDisjoint p 0x1000 (0x60000000 : Addr 64) 0x30000000) :
    wideWorld.Fresh p samplePlatform.pageSize := by
  intro a ha
  refine decide_eq_false fun h => ?_
  rcases h with h | h
  · exact hprogram a ha h
  · exact hlibrary a ha h

/-- The state after the three calls. -/
def repeatedPrepared (a b c : AllocAnswer 64) : HandleState 64 :=
  nextPrepared (nextPrepared (nextPrepared (.start wideWorld) repeated[0] a) repeated[1] b)
    repeated[2] c

/-- All three entries are on the page before the library. -/
theorem repeated_onOnePage : Prepares samplePlatform wideWorld repeated [⟨0, 0⟩, ⟨0, 1⟩, ⟨0, 2⟩]
    (repeatedPrepared pageBefore noPage noPage) := by
  have hfresh : pageBefore.Fresh samplePlatform wideWorld := by
    intro p hp
    rw [pageBefore_alloc] at hp
    cases hp
    exact wideWorld_fresh (rangesDisjoint_of_distance (by decide) (by decide))
      (rangesDisjoint_of_distance (by decide) (by decide))
  have hfirst := Prepares.next .start repeated[0] pageBefore ⟨0, 0⟩ rfl hfresh (by decide +kernel)
    (by decide +kernel)
  have hsecond := hfirst.next repeated[1] noPage ⟨0, 1⟩ rfl (noPage_fresh _) (by decide +kernel)
    (by decide +kernel)
  exact hsecond.next repeated[2] noPage ⟨0, 2⟩ rfl (noPage_fresh _) (by decide +kernel)
    (by decide +kernel)

/-- The second and the third entry are on a newer page, which both functions can reach. -/
theorem repeated_onTwoPages : Prepares samplePlatform wideWorld repeated
    [⟨0, 0⟩, ⟨1, 0⟩, ⟨1, 1⟩] (repeatedPrepared pageBehindLibrary pageBehindProgram noPage) := by
  have hfresh : pageBehindLibrary.Fresh samplePlatform wideWorld := by
    intro p hp
    rw [pageBehindLibrary_alloc] at hp
    cases hp
    exact wideWorld_fresh (rangesDisjoint_of_distance (by decide) (by decide))
      (rangesDisjoint_of_distance (by decide) (by decide))
  have hprogram : wideWorld.Fresh 0x20000000 samplePlatform.pageSize :=
    wideWorld_fresh (rangesDisjoint_of_distance (by decide) (by decide))
      (rangesDisjoint_of_distance (by decide) (by decide))
  have hfirst := Prepares.next .start repeated[0] pageBehindLibrary ⟨0, 0⟩ rfl hfresh
    (by decide +kernel) (by decide +kernel)
  have hsecond := hfirst.next repeated[1] pageBehindProgram ⟨1, 0⟩ rfl ?_ (by decide +kernel)
    (by decide +kernel)
  · exact hsecond.next repeated[2] noPage ⟨1, 1⟩ rfl (noPage_fresh _) (by decide +kernel)
      (by decide +kernel)
  · intro p hp a ha
    rw [pageBehindProgram_alloc] at hp
    cases hp
    refine Bool.eq_false_iff.mpr fun hmapped => ?_
    rcases nextPrepared_mapped hmapped with hstart | ⟨p, hp, hin⟩
    · rw [HandleState.start, hprogram a ha] at hstart
      cases hstart
    · rw [pageBehindLibrary_alloc] at hp
      cases hp
      exact rangesDisjoint_of_distance (n := 0x1000) (by decide) (by decide) a ha hin

/-- The installs after the two runs. -/
def onOnePage : CallResult 64 :=
  funchookInstallInternal samplePlatform (repeatedPrepared pageBefore noPage noPage).fh
    (repeatedPrepared pageBefore noPage noPage).world []

def onTwoPages : CallResult 64 :=
  funchookInstallInternal samplePlatform
    (repeatedPrepared pageBehindLibrary pageBehindProgram noPage).fh
    (repeatedPrepared pageBehindLibrary pageBehindProgram noPage).world []

/-- The same three calls, on the same platform, with pages that the allocator of Unix returns: on
one page the hook of the third call is in effect at the function of the library, on two pages that
of the first one. -/
theorem hook_depends_on_pages :
    Prepares samplePlatform wideWorld repeated [⟨0, 0⟩, ⟨0, 1⟩, ⟨0, 2⟩]
        (repeatedPrepared pageBefore noPage noPage) ∧
      Prepares samplePlatform wideWorld repeated [⟨0, 0⟩, ⟨1, 0⟩, ⟨1, 1⟩]
        (repeatedPrepared pageBehindLibrary pageBehindProgram noPage) ∧
      onOnePage.rv = errorSuccess ∧ onTwoPages.rv = errorSuccess ∧
      (Ia32.step true (Ia32.State.initial onOnePage.world.bytes 0x8fff0000)).map Ia32.State.ip =
        some 0x8fff2000 ∧
      (Ia32.step true (Ia32.State.initial onTwoPages.world.bytes 0x8fff0000)).map Ia32.State.ip =
        some 0x8fff1000 ∧
      ¬ ∀ func i, InEffect samplePlatform repeated [⟨0, 0⟩, ⟨0, 1⟩, ⟨0, 2⟩] onOnePage func i ↔
        InEffect samplePlatform repeated [⟨0, 0⟩, ⟨1, 0⟩, ⟨1, 1⟩] onTwoPages func i := by
  refine ⟨repeated_onOnePage, repeated_onTwoPages, by decide +kernel, by decide +kernel,
    by decide +kernel, by decide +kernel, fun hsame => ?_⟩
  have hlast : lastVisited (repeatedPrepared pageBefore noPage noPage).fh.pageList
      0x8fff0000 = some ⟨0, 2⟩ := by decide +kernel
  have htwo : lastVisited onTwoPages.fh.pageList 0x8fff0000 = some ⟨0, 0⟩ := by decide +kernel
  have heffect :
      InEffect samplePlatform repeated [⟨0, 0⟩, ⟨0, 1⟩, ⟨0, 2⟩] onOnePage 0x8fff0000 2 :=
    (repeated_onOnePage.inEffect_iff (by decide +kernel)).mpr ⟨⟨repeated[2], rfl, rfl⟩,
      (repeated_onOnePage.placed.lastVisited_iff rfl rfl).mp hlast⟩
  obtain ⟨-, call, place, e, -, -, hplace, hother, -⟩ := (hsame 0x8fff0000 2).mp heffect
  rw [htwo] at hother
  cases hplace
  cases hother

theorem withPaging_paging (P : Platform w) : P.withPaging P.paging = P := rfl

theorem same_hooks_iff_repeated :
    (∀ func i, InEffect samplePlatform repeated [⟨0, 0⟩, ⟨0, 1⟩, ⟨0, 2⟩] onOnePage func i ↔
      InEffect samplePlatform repeated [⟨0, 0⟩, ⟨1, 0⟩, ⟨1, 1⟩] onTwoPages func i) ↔
      ∀ i, Overruled repeated [⟨0, 0⟩, ⟨0, 1⟩, ⟨0, 2⟩] i ↔
        Overruled repeated [⟨0, 0⟩, ⟨1, 0⟩, ⟨1, 1⟩] i := by
  have hone : onOnePage.rv = errorSuccess := by decide +kernel
  have htwo : onTwoPages.rv = errorSuccess := by decide +kernel
  have hsame := withPaging_paging samplePlatform
  exact same_hooks_iff samplePlatform samplePlatform.paging samplePlatform.paging
    (hsame ▸ repeated_onOnePage) (hsame ▸ repeated_onTwoPages) hone htwo

end Funchook
