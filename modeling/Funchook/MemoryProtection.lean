import Funchook.Lib.Blocks
import Funchook.Handle

/-!
# Changing the protection of memory (`os_unix.c`, `os_windows.c`)

`funchook_page_protect`, `funchook_page_unprotect`, `funchook_unprotect_begin` and
`funchook_unprotect_end` of both systems, on a state that holds the protection of every byte. The
bytes of a page have one protection, and every call changes whole pages. How a call of `mprotect`
or `VirtualProtect` ends is data, and `calls` records the calls made, the last one first.
-/

namespace Funchook

open ByteMemory Blocks

variable {w : ℕ} {π : Type}

/-- How a call of `mprotect` or `VirtualProtect` ends. A failing one brings `errno` or
`GetLastError()` with its text, and may leave any protection on the pages it was made for. -/
inductive ProtectAnswer (w : ℕ) (π : Type) where
  | ok
  | fail (err : BitVec 32) (message : String) (left : Addr w → π)

/-- A call with its answer. -/
structure ProtectCall (w : ℕ) (π : Type) where
  addr : Addr w
  size : BitVec w
  prot : π
  answer : ProtectAnswer w π

/-- The protection of every byte after a call. -/
def ProtectCall.apply (c : ProtectCall w π) (access : Addr w → π) : Addr w → π := fun a =>
  if InRange c.addr c.size.toNat a then
    match c.answer with
    | .ok => c.prot
    | .fail _ _ left => left a
  else access a

structure ProtectState (w : ℕ) (π : Type) where
  access : Addr w → π
  answers : List (ProtectAnswer w π)
  calls : List (ProtectCall w π)

/-- The answer to the next call and the answers left; an exhausted list answers `ok`. -/
def ProtectState.next (s : ProtectState w π) : ProtectAnswer w π × List (ProtectAnswer w π) :=
  match s.answers with
  | [] => (.ok, [])
  | a :: as => (a, as)

/-- The call to be made next. -/
def ProtectState.call (s : ProtectState w π) (addr : Addr w) (size : BitVec w) (prot : π) :
    ProtectCall w π :=
  ⟨addr, size, prot, s.next.1⟩

/-- `mprotect` and `VirtualProtect` -/
def ProtectState.protect (s : ProtectState w π) (addr : Addr w) (size : BitVec w) (prot : π) :
    ProtectState w π :=
  ⟨(s.call addr size prot).apply s.access, s.next.2, s.call addr size prot :: s.calls⟩

/-- `mstate->addr` and `mstate->size` as `funchook_unprotect_begin` of both systems sets them. -/
structure MemState (w : ℕ) where
  addr : Addr w
  size : BitVec w
  deriving DecidableEq, Repr

def memState (pageSize start : Addr w) (len : BitVec w) : MemState w :=
  let saddr := roundDown start pageSize
  ⟨saddr, roundUp (len + start - saddr) pageSize⟩

/-- The functions that change a protection, as the loops of install and uninstall use them. -/
structure ProtectOps (w : ℕ) (σ : Type) where
  /-- `mem_state_t` -/
  State : Type
  funchookPageProtect : Addr w → σ → Option Failure × σ
  funchookPageUnprotect : Addr w → σ → Option Failure × σ
  funchookUnprotectBegin : Addr w → BitVec w → σ → Except Failure State × σ
  funchookUnprotectEnd : State → σ → Option Failure × σ

def fmtSize (n : BitVec w) : String := toString n.toNat

variable (pageSize : Addr w)

/-! ## Unix -/

namespace Unix

/-- `PROT_READ`, `PROT_WRITE` and `PROT_EXEC` -/
structure Prot where
  read : Bool
  write : Bool
  exec : Bool
  deriving DecidableEq, Repr

def protReadWrite : Prot := ⟨true, true, false⟩

def protReadExec : Prot := ⟨true, false, true⟩

def protReadWriteExec : Prot := ⟨true, true, true⟩

/-- `EACCES` -/
def eacces : BitVec 32 := 13

/-- The static `prot` of `funchook_unprotect_begin`; a process starts with `protReadWriteExec`. -/
structure ProtectState (w : ℕ) extends Funchook.ProtectState w Prot where
  prot : Prot

def ProtectState.mprotect (s : ProtectState w) (addr : Addr w) (size : BitVec w) (prot : Prot) :
    ProtectState w :=
  { s with toProtectState := s.protect addr size prot }

/-- A change of the protection of a page of the library. -/
def setPageProt (verb : String) (prot : Prot) (page : Addr w) (s : ProtectState w) :
    Option Failure × ProtectState w :=
  (match s.next.1 with
    | .ok => none
    | .fail _ message _ => some ⟨errorMemoryFunction, "Failed to " ++ verb ++ " page " ++
        fmtPtr page ++ " (size=" ++ fmtSize pageSize ++ ", error=" ++ message ++ ")"⟩,
    s.mprotect page pageSize prot)

def funchookPageProtect : Addr w → ProtectState w → Option Failure × ProtectState w :=
  setPageProt pageSize "protect" protReadExec

def funchookPageUnprotect : Addr w → ProtectState w → Option Failure × ProtectState w :=
  setPageProt pageSize "unprotect" protReadWrite

/-- The text of a failing `funchook_unprotect_begin`. -/
def unprotectMessage (mstate : MemState w) (prot : Prot) (start : Addr w) (len : BitVec w)
    (message : String) : String :=
  "Failed to unprotect memory " ++ fmtPtr mstate.addr ++ " (size=" ++ fmtSize mstate.size ++
    ", prot=read,write" ++ (if prot.exec then ",exec" else "") ++ ") <- " ++ fmtPtr start ++
    " (size=" ++ fmtSize len ++ ", error=" ++ message ++ ")"

def funchookUnprotectBegin (start : Addr w) (len : BitVec w) (s : ProtectState w) :
    Except Failure (MemState w) × ProtectState w :=
  let mstate := memState pageSize start len
  let s₁ := s.mprotect mstate.addr mstate.size s.prot
  match s.next.1 with
  | .ok => (.ok mstate, s₁)
  | .fail err message _ =>
    if err = eacces ∧ s.prot.exec then
      let s₂ := s₁.mprotect mstate.addr mstate.size protReadWrite
      match s₁.next.1 with
      -- the later calls do not ask for execution either
      | .ok => (.ok mstate, { s₂ with prot := protReadWrite })
      | .fail _ message _ =>
        (.error ⟨errorMemoryFunction, unprotectMessage mstate s.prot start len message⟩, s₂)
    else (.error ⟨errorMemoryFunction, unprotectMessage mstate s.prot start len message⟩, s₁)

def funchookUnprotectEnd (mstate : MemState w) (s : ProtectState w) :
    Option Failure × ProtectState w :=
  (match s.next.1 with
    | .ok => none
    | .fail _ message _ => some ⟨errorMemoryFunction, "Failed to protect memory " ++
        fmtPtr mstate.addr ++ " (size=" ++ fmtSize mstate.size ++ ", prot=read,exec, error=" ++
        message ++ ")"⟩,
    s.mprotect mstate.addr mstate.size protReadExec)

def protectOps : ProtectOps w (ProtectState w) where
  State := MemState w
  funchookPageProtect := funchookPageProtect pageSize
  funchookPageUnprotect := funchookPageUnprotect pageSize
  funchookUnprotectBegin := funchookUnprotectBegin pageSize
  funchookUnprotectEnd := funchookUnprotectEnd

end Unix

/-! ## Windows -/

namespace Windows

/-- A protection constant, such as `PAGE_READONLY`. -/
abbrev Protect := BitVec 32

def pageReadWrite : Protect := 0x04

def pageExecuteRead : Protect := 0x20

def pageExecuteReadWrite : Protect := 0x40

/-- `mem_state_t` with `protect` -/
structure MemState (w : ℕ) extends Funchook.MemState w where
  protect : Protect

abbrev ProtectState (w : ℕ) := Funchook.ProtectState w Protect

/-- The text that `%p` prints: the digits of a pointer. -/
def fmtDigits (a : Addr w) : String :=
  let digits := (Nat.toDigits 16 a.toNat).map Char.toUpper
  String.ofList (List.replicate (w / 4 - digits.length) '0' ++ digits)

/-- `%lu(%s)` for `GetLastError()` and its text. -/
def fmtLastError (err : BitVec 32) (message : String) : String :=
  toString err.toNat ++ "(" ++ message ++ ")"

/-- A change of the protection of a page of the library. -/
def setPageProt (verb prots : String) (prot : Protect) (page : Addr w) (s : ProtectState w) :
    Option Failure × ProtectState w :=
  (match s.next.1 with
    | .ok => none
    | .fail err message _ => some ⟨errorMemoryFunction, "Failed to " ++ verb ++ " page " ++
        fmtDigits page ++ " (size=" ++ fmtSize pageSize ++ ", prot=" ++ prots ++ ", error=" ++
        fmtLastError err message ++ ")"⟩,
    s.protect page pageSize prot)

def funchookPageProtect : Addr w → ProtectState w → Option Failure × ProtectState w :=
  setPageProt pageSize "protect" "read,exec" pageExecuteRead

def funchookPageUnprotect : Addr w → ProtectState w → Option Failure × ProtectState w :=
  setPageProt pageSize "unprotect" "read,write" pageReadWrite

/-- `VirtualProtect` stores the protection that the first page of its range had. -/
def funchookUnprotectBegin (start : Addr w) (len : BitVec w) (s : ProtectState w) :
    Except Failure (MemState w) × ProtectState w :=
  let mstate := memState pageSize start len
  let s₁ := s.protect mstate.addr mstate.size pageExecuteReadWrite
  match s.next.1 with
  | .ok => (.ok ⟨mstate, s.access mstate.addr⟩, s₁)
  | .fail err message _ => (.error ⟨errorMemoryFunction, "Failed to unprotect memory " ++
      fmtDigits mstate.addr ++ " (size=" ++ fmtSize mstate.size ++ ") <- " ++ fmtDigits start ++
      " (size=" ++ fmtSize len ++ ", error=" ++ fmtLastError err message ++ ")"⟩, s₁)

def funchookUnprotectEnd (mstate : MemState w) (s : ProtectState w) :
    Option Failure × ProtectState w :=
  (match s.next.1 with
    | .ok => none
    | .fail err message _ => some ⟨errorMemoryFunction, "Failed to protect memory " ++
        fmtDigits mstate.addr ++ " (size=" ++ fmtSize mstate.size ++ ", error=" ++
        fmtLastError err message ++ ")"⟩,
    s.protect mstate.addr mstate.size mstate.protect)

def protectOps : ProtectOps w (ProtectState w) where
  State := MemState w
  funchookPageProtect := funchookPageProtect pageSize
  funchookPageUnprotect := funchookPageUnprotect pageSize
  funchookUnprotectBegin := funchookUnprotectBegin pageSize
  funchookUnprotectEnd := funchookUnprotectEnd

end Windows

/-! ## The range -/

variable {pageSize}

theorem memState_addr {k : ℕ} (hunit : pageSize.toNat = 2 ^ k) (start : Addr w) (len : BitVec w) :
    (memState pageSize start len).addr.toNat = start.toNat / 2 ^ k * 2 ^ k :=
  toNat_and_not_sub_one hunit start

theorem memState_size {k : ℕ} (hunit : pageSize.toNat = 2 ^ k) (start : Addr w) (len : BitVec w)
    (hfits : start.toNat % 2 ^ k + len.toNat + pageSize.toNat < 2 ^ w) :
    (memState pageSize start len).size.toNat = up (2 ^ k) (start.toNat % 2 ^ k + len.toNat) := by
  have hlow := toNat_sub_and_not hunit start
  have hsum : (len + start - roundDown start pageSize).toNat = start.toNat % 2 ^ k + len.toNat := by
    rw [show len + start - roundDown start pageSize = (start - roundDown start pageSize) + len by
      rw [BitVec.add_comm len, BitVec.sub_eq_add_neg, BitVec.sub_eq_add_neg]
      ac_rfl, BitVec.toNat_add_of_lt, roundDown, hlow]
    rw [roundDown, hlow]
    omega
  have hlt := up_lt (Nat.two_pow_pos k) (start.toNat % 2 ^ k + len.toNat)
  show (roundUp (len + start - roundDown start pageSize) pageSize).toNat = _
  rw [roundUp, toNat_add_sub_one_and_not hunit, hsum, Nat.mod_eq_of_lt (by omega)]

/-- `s'` follows `s` by calls for `[addr, addr + size)`, at least one. -/
def CallsOn (mstate : MemState w) (s s' : ProtectState w π) : Prop :=
  ∃ made, s'.calls = made ++ s.calls ∧ made ≠ [] ∧
    ∀ c ∈ made, c.addr = mstate.addr ∧ c.size = mstate.size

theorem callsOn_protect (mstate : MemState w) (s : ProtectState w π) (prot : π) :
    CallsOn mstate s (s.protect mstate.addr mstate.size prot) := by
  refine ⟨[s.call mstate.addr mstate.size prot], rfl, List.cons_ne_nil _ _, ?_⟩
  intro c hc
  cases List.mem_singleton.mp hc
  exact ⟨rfl, rfl⟩

theorem CallsOn.trans {mstate : MemState w} {s s' s'' : ProtectState w π} (h : CallsOn mstate s s')
    (h' : CallsOn mstate s' s'') : CallsOn mstate s s'' := by
  obtain ⟨made, hmade, hne, hall⟩ := h
  obtain ⟨made', hmade', -, hall'⟩ := h'
  refine ⟨made' ++ made, ?_, ?_, ?_⟩
  · rw [hmade', hmade, List.append_assoc]
  · simp [hne]
  · intro c hc
    cases List.mem_append.mp hc with
    | inl hc => exact hall' c hc
    | inr hc => exact hall c hc

/-- `funchook_unprotect_begin` on Unix calls `mprotect` for one range, also the second time. -/
theorem Unix.unprotectBegin_calls (pageSize start : Addr w) (len : BitVec w)
    (s : Unix.ProtectState w) :
    CallsOn (memState pageSize start len) s.toProtectState
        (Unix.funchookUnprotectBegin pageSize start len s).2.toProtectState ∧
      ∀ mstate, (Unix.funchookUnprotectBegin pageSize start len s).1 = .ok mstate →
        mstate = memState pageSize start len := by
  have hfirst := callsOn_protect (memState pageSize start len) s.toProtectState s.prot
  rcases hnext : s.next.1 with _ | ⟨err, message, left⟩
  · simp only [Unix.funchookUnprotectBegin, hnext]
    exact ⟨hfirst, fun mstate h => (Except.ok.inj h).symm⟩
  · by_cases hretry : err = Unix.eacces ∧ s.prot.exec = true
    · simp only [Unix.funchookUnprotectBegin, hnext, if_pos hretry]
      split
      · exact ⟨hfirst.trans (callsOn_protect _ _ _), fun mstate h => (Except.ok.inj h).symm⟩
      · exact ⟨hfirst.trans (callsOn_protect _ _ _), fun mstate h => by cases h⟩
    · simp only [Unix.funchookUnprotectBegin, hnext, if_neg hretry]
      exact ⟨hfirst, fun mstate h => by cases h⟩

theorem Windows.unprotectBegin_calls (pageSize start : Addr w) (len : BitVec w)
    (s : Windows.ProtectState w) :
    CallsOn (memState pageSize start len) s
        (Windows.funchookUnprotectBegin pageSize start len s).2 ∧
      ∀ mstate, (Windows.funchookUnprotectBegin pageSize start len s).1 = .ok mstate →
        mstate.toMemState = memState pageSize start len := by
  have hcall := callsOn_protect (memState pageSize start len) s Windows.pageExecuteReadWrite
  rcases hnext : s.next.1 with _ | ⟨err, message, left⟩
  · simp only [Windows.funchookUnprotectBegin, hnext]
    exact ⟨hcall, fun mstate h => by rw [← Except.ok.inj h]⟩
  · simp only [Windows.funchookUnprotectBegin, hnext]
    exact ⟨hcall, fun mstate h => by cases h⟩

/-- **The unprotected range.** On both systems every call that `funchook_unprotect_begin` makes is
for the pages that meet the patched bytes and no others, and `funchook_unprotect_end` is called
for the same range. -/
theorem unprotect_exact_pages {k : ℕ} (hunit : pageSize.toNat = 2 ^ k) {start : Addr w}
    {len : BitVec w} (hlen : 0 < len.toNat)
    (hfits : start.toNat + len.toNat + pageSize.toNat < 2 ^ w) :
    let pages := memState pageSize start len
    Exact pageSize.toNat start.toNat len.toNat pages.addr.toNat pages.size.toNat ∧
      pages.addr.toNat + pages.size.toNat ≤ 2 ^ w ∧
      (∀ s : Unix.ProtectState w,
        let r := Unix.funchookUnprotectBegin pageSize start len s
        CallsOn pages s.toProtectState r.2.toProtectState ∧
          ∀ mstate, r.1 = .ok mstate → ∀ s₁ : Unix.ProtectState w,
            CallsOn pages s₁.toProtectState
              (Unix.funchookUnprotectEnd mstate s₁).2.toProtectState) ∧
      ∀ s : Windows.ProtectState w,
        let r := Windows.funchookUnprotectBegin pageSize start len s
        CallsOn pages s r.2 ∧
          ∀ mstate, r.1 = .ok mstate → ∀ s₁ : Windows.ProtectState w,
            CallsOn pages s₁ (Windows.funchookUnprotectEnd mstate s₁).2 := by
  have hpos : 0 < 2 ^ k := Nat.two_pow_pos k
  have hmod := Nat.div_add_mod' start.toNat (2 ^ k)
  have hsize := memState_size hunit start len (by omega)
  have haddr := memState_addr hunit start len
  refine ⟨?_, ?_, ?_, ?_⟩
  · rw [haddr, hsize, hunit]
    exact exact_round hpos hlen
  · have hlt := up_lt hpos (start.toNat % 2 ^ k + len.toNat)
    rw [haddr, hsize]
    omega
  · intro s
    obtain ⟨hcalls, hmstate⟩ := Unix.unprotectBegin_calls pageSize start len s
    refine ⟨hcalls, ?_⟩
    intro mstate hok s₁
    cases hmstate mstate hok
    exact callsOn_protect _ _ _
  · intro s
    obtain ⟨hcalls, hmstate⟩ := Windows.unprotectBegin_calls pageSize start len s
    refine ⟨hcalls, ?_⟩
    intro mstate hok s₁
    rw [← hmstate mstate hok]
    exact callsOn_protect _ _ _

/-- Five bytes over the boundary of two pages. -/
theorem unprotect_exact_pages_straddling :
    Exact 4096 0x401ffe 5 0x401000 0x2000 ∧
      (memState (0x1000 : Addr 64) 0x401ffe 5) = ⟨0x401000, 0x2000⟩ := by
  have hunit : (0x1000 : Addr 64).toNat = 2 ^ 12 := by decide
  have hfits : (0x401ffe : Addr 64).toNat + (5 : BitVec 64).toNat + (0x1000 : Addr 64).toNat <
      2 ^ 64 := by decide
  exact ⟨(unprotect_exact_pages hunit (by decide) hfits).1, by decide⟩

end Funchook
