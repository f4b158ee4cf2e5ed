import Mathlib.Logic.Relation
import Funchook.Lib.ByteMemory

/-!
# Machines that run bytes

A machine that finds its code in its memory. What the instructions do is a parameter; all that is
fixed is that an instruction is recognized by its own bytes, whatever stands behind them.

An instruction has two addresses: the one its PC-relative operand counts from, and the one of what
follows it. On the machine both are the end of the instruction. An instruction that was copied
elsewhere is compared with what it does when only the second one has changed.
-/

namespace ByteCode

open ByteMemory

/-- A machine with addresses of `w` bits and states `σ`. -/
structure Machine (w : ℕ) (σ : Type) where
  ip : σ → BitVec w
  mem : σ → Mem w
  withIp : σ → BitVec w → σ
  /-- The number of bytes fetched for an instruction. -/
  window : ℕ
  /-- The length of the instruction that the fetched bytes start with. -/
  insnLen : List Byte → Option ℕ
  /-- What an instruction does, from the base of its PC-relative operand and the address of what
  follows; `none` where the machine stops. -/
  exec : List Byte → BitVec w → BitVec w → σ → Option σ
  ip_withIp : ∀ s p, ip (withIp s p) = p
  mem_withIp : ∀ s p, mem (withIp s p) = mem s
  withIp_self : ∀ s, withIp s (ip s) = s
  insnLen_append : ∀ {bytes : List Byte} (rest : List Byte), insnLen bytes = some bytes.length →
    insnLen (bytes ++ rest) = some bytes.length
  exec_withIp : ∀ bytes base next s p, exec bytes base next (withIp s p) = exec bytes base next s

/-- `bytes'` is `bytes` with other contents of the four bytes at `o`. -/
structure SameOff (o : ℕ) (bytes bytes' : List Byte) : Prop where
  length : bytes'.length = bytes.length
  byte : ∀ i, i < o ∨ o + 4 ≤ i → bytes'[i]? = bytes[i]?

/-- Behind the bytes that stay are the four others. -/
theorem SameOff.eq_append {head bytes' : List Byte} {v : BitVec 32}
    (h : SameOff head.length (head ++ leBytes 4 v) bytes') :
    bytes' = head ++ leBytes 4 (bufWord 4 bytes' head.length) := by
  have hlen : bytes'.length = head.length + 4 := by
    rw [h.length, List.length_append]
    exact congrArg (head.length + ·) (leBytes_length 4 v)
  refine List.ext_getElem? fun i => ?_
  rcases Nat.lt_or_ge i head.length with hhead | hhead
  · rw [h.byte i (Or.inl hhead), List.getElem?_append_left hhead, List.getElem?_append_left hhead]
  · rw [List.getElem?_append_right hhead, bufWord, leBytes_leWord]
    rcases Nat.lt_or_ge (i - head.length) 4 with hin | hout
    · rw [List.getElem?_map, List.getElem?_range hin, Option.map_some,
        Nat.add_sub_cancel' hhead, List.getElem?_eq_getElem (by omega), Option.getD_some]
    · rw [List.getElem?_eq_none (by omega), List.getElem?_eq_none (by simpa using hout)]

namespace Machine

variable {w : ℕ} {σ : Type} (M : Machine w σ)

/-- `bytes` are one instruction. -/
structure IsInsn (bytes : List Byte) : Prop where
  len : M.insnLen bytes = some bytes.length
  fits : bytes.length ≤ M.window

/-- One step. -/
def step (s : σ) : Option σ :=
  (M.insnLen (readBytes (M.mem s) (M.ip s) M.window)).bind fun n =>
    M.exec (readBytes (M.mem s) (M.ip s) n) (M.ip s + BitVec.ofNat w n)
      (M.ip s + BitVec.ofNat w n) s

/-- Any number of steps. -/
def Steps : σ → σ → Prop := Relation.ReflTransGen fun s t => M.step s = some t

/-- The effect does not depend on where the instruction stands. -/
def Absolute (bytes : List Byte) : Prop :=
  ∀ base base' next s, M.exec bytes base next s = M.exec bytes base' next s

/-- The only PC-relative operand is the displacement of 32 bits at `o`: from another base, another
displacement that leads to the same address makes the same instruction. -/
structure Relative (bytes : List Byte) (o : ℕ) : Prop where
  insn : ∀ bytes', SameOff o bytes bytes' → M.IsInsn bytes'
  exec : ∀ bytes', SameOff o bytes bytes' → ∀ base base' next s,
    base + (bufWord 4 bytes o : BitVec 32).signExtend w =
      base' + (bufWord 4 bytes' o : BitVec 32).signExtend w →
    M.exec bytes base next s = M.exec bytes' base' next s

variable {M}

/-- **The instruction at the instruction pointer** is the one that is run. -/
theorem step_of_holds {bytes : List Byte} {s : σ} (h : M.IsInsn bytes)
    (hs : Holds (M.mem s) (M.ip s) bytes) :
    M.step s = M.exec bytes (M.ip s + BitVec.ofNat w bytes.length)
      (M.ip s + BitVec.ofNat w bytes.length) s := by
  have hread : readBytes (M.mem s) (M.ip s) bytes.length = bytes := hs
  have hwindow : readBytes (M.mem s) (M.ip s) M.window =
      bytes ++ readBytes (M.mem s) (M.ip s + BitVec.ofNat w bytes.length)
        (M.window - bytes.length) := by
    conv_lhs => rw [← Nat.add_sub_cancel' h.fits]
    rw [readBytes_add, hread]
  rw [step, hwindow, M.insnLen_append _ h.len, Option.bind_some, hread]

/-- **A copy without PC-relative operand** does what the original does. -/
theorem step_copied {bytes : List Byte} {s : σ} {p : BitVec w} (h : M.IsInsn bytes)
    (habsolute : M.Absolute bytes) (hs : Holds (M.mem s) p bytes) (base : BitVec w) :
    M.step (M.withIp s p) = M.exec bytes base (p + BitVec.ofNat w bytes.length) s := by
  rw [step_of_holds h (by rwa [M.mem_withIp, M.ip_withIp]), M.exec_withIp, M.ip_withIp,
    habsolute _ base]

/-- **A copy whose displacement was led back** to the address of the original does what the
original does. -/
theorem step_relocated {bytes bytes' : List Byte} {o : ℕ} {s : σ} {p : BitVec w}
    (h : M.Relative bytes o) (hsame : SameOff o bytes bytes') (hs : Holds (M.mem s) p bytes')
    (base : BitVec w) (htarget : p + BitVec.ofNat w bytes.length +
      (bufWord 4 bytes' o : BitVec 32).signExtend w =
        base + (bufWord 4 bytes o : BitVec 32).signExtend w) :
    M.step (M.withIp s p) = M.exec bytes base (p + BitVec.ofNat w bytes.length) s := by
  rw [step_of_holds (h.insn _ hsame) (by rwa [M.mem_withIp, M.ip_withIp]), M.exec_withIp,
    M.ip_withIp, hsame.length]
  exact (h.exec _ hsame _ _ _ s htarget.symm).symm

end Machine

end ByteCode
