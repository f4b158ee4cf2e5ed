import Mathlib.Algebra.Ring.Int.Defs
import Mathlib.Algebra.Ring.Nat
import Mathlib.Tactic.Common

/-!
# Byte memories and code patches

A memory of `w`-bit addresses is a total map from addresses to bytes. Address arithmetic wraps
modulo `2^w`, so membership of `a` in the `n` bytes from `t` is the single inequality
`(a - t).toNat < n`. A patch is a block of bytes with the address it is copied to, and the
effect of a list of patches is read off byte by byte from the last patch that covers a byte.
Little-endian words of any number of bytes are read and written through the same operations.
-/

namespace ByteMemory

abbrev Byte := BitVec 8

abbrev Mem (w : ℕ) := BitVec w → Byte

variable {w : ℕ}

/-! ## Ranges of addresses -/

/-- `a` is one of the `n` bytes from `t`, modulo `2^w`. -/
def InRange (t : BitVec w) (n : ℕ) (a : BitVec w) : Prop := (a - t).toNat < n

instance (t : BitVec w) (n : ℕ) (a : BitVec w) : Decidable (InRange t n a) :=
  inferInstanceAs (Decidable ((a - t).toNat < n))

/-- Two ranges share no address. -/
def RangesDisjoint (t : BitVec w) (n : ℕ) (t' : BitVec w) (n' : ℕ) : Prop :=
  ∀ a, InRange t n a → ¬ InRange t' n' a

theorem inRange_mono {t : BitVec w} {n n' : ℕ} {a : BitVec w} (h : InRange t n a)
    (hn : n ≤ n') : InRange t n' a := Nat.lt_of_lt_of_le h hn

theorem rangesDisjoint_symm {t t' : BitVec w} {n n' : ℕ} (h : RangesDisjoint t n t' n') :
    RangesDisjoint t' n' t n := fun a ha' ha => h a ha ha'

/-- Distance from `t` of the address `i` bytes past it. -/
theorem add_sub_toNat (t : BitVec w) {i : ℕ} (hi : i < 2 ^ w) :
    (t + BitVec.ofNat w i - t).toNat = i := by
  rw [BitVec.add_comm, BitVec.add_sub_cancel, BitVec.toNat_ofNat, Nat.mod_eq_of_lt hi]

theorem inRange_add {t : BitVec w} {n i : ℕ} (hi : i < n) (hn : n ≤ 2 ^ w) :
    InRange t n (t + BitVec.ofNat w i) := by
  rw [InRange, add_sub_toNat t (Nat.lt_of_lt_of_le hi hn)]
  exact hi

/-- Every address of a range is its start plus an offset below the length. -/
theorem eq_add_of_inRange {t : BitVec w} {n : ℕ} {a : BitVec w} (_h : InRange t n a) :
    a = t + BitVec.ofNat w (a - t).toNat := by
  rw [BitVec.ofNat_toNat, BitVec.setWidth_eq, BitVec.add_comm, BitVec.sub_add_cancel]

/-- A block `k` bytes into a range: distances from the two starts differ by `k`. -/
theorem sub_toNat_of_inner {t : BitVec w} {k n : ℕ} {a : BitVec w}
    (h : InRange (t + BitVec.ofNat w k) n a) (hk : k + n ≤ 2 ^ w) :
    (a - t).toNat = k + (a - (t + BitVec.ofNat w k)).toNat := by
  have hd : (a - (t + BitVec.ofNat w k)).toNat < n := h
  have hsum : a - t = (a - (t + BitVec.ofNat w k)) + BitVec.ofNat w k := by
    rw [← BitVec.sub_sub, BitVec.sub_add_cancel]
  rw [hsum, BitVec.toNat_add, BitVec.toNat_ofNat, Nat.mod_eq_of_lt (a := k) (by omega),
    Nat.mod_eq_of_lt (by omega)]
  omega

theorem inRange_of_inner {t : BitVec w} {k n N : ℕ} {a : BitVec w}
    (h : InRange (t + BitVec.ofNat w k) n a) (hk : k + n ≤ N) (hN : N ≤ 2 ^ w) :
    InRange t N a := by
  have hd : (a - (t + BitVec.ofNat w k)).toNat < n := h
  rw [InRange, sub_toNat_of_inner h (by omega)]
  omega

/-- Two blocks of one range at separated offsets do not meet. -/
theorem rangesDisjoint_of_inner {t : BitVec w} {k n k' n' : ℕ} (hlt : k + n ≤ k')
    (hN : k' + n' ≤ 2 ^ w) :
    RangesDisjoint (t + BitVec.ofNat w k) n (t + BitVec.ofNat w k') n' := by
  intro a ha ha'
  have h1 := sub_toNat_of_inner ha (by omega)
  have h2 := sub_toNat_of_inner ha' hN
  have hd : (a - (t + BitVec.ofNat w k)).toNat < n := ha
  omega

/-- Two ranges are apart when each starts behind the end of the other. -/
theorem rangesDisjoint_of_distance {t t' : BitVec w} {n n' : ℕ} (h : n ≤ (t' - t).toNat)
    (h' : n' ≤ (t - t').toNat) : RangesDisjoint t n t' n' := by
  intro a ha ha'
  have hd : (a - t).toNat < n := ha
  have hd' : (a - t').toNat < n' := ha'
  have hlt := (t' - t).isLt
  have hlt' := (t - t').isLt
  have hzero : t' - t + (t - t') = 0#w := by grind
  have hvia : a - t' = a - t + (t - t') := by grind
  have hturn : ((t' - t).toNat + (t - t').toNat) % 2 ^ w = 0 := by
    rw [← BitVec.toNat_add, hzero, BitVec.toNat_zero]
  have hsum : (t' - t).toNat + (t - t').toNat = 2 ^ w := by
    rcases Nat.lt_or_ge ((t' - t).toNat + (t - t').toNat) (2 ^ w) with hsmall | hlarge
    · rw [Nat.mod_eq_of_lt hsmall] at hturn
      omega
    · rw [Nat.mod_eq_sub_mod hlarge, Nat.mod_eq_of_lt (by omega)] at hturn
      omega
  have hsplit : (a - t').toNat = (a - t).toNat + (t - t').toNat := by
    rw [hvia, BitVec.toNat_add, Nat.mod_eq_of_lt (by omega)]
  omega

/-! ## Block writes and reads -/

/-- Copy `bs` to the bytes from `t`. -/
def write (m : Mem w) (t : BitVec w) (bs : List Byte) : Mem w := fun a =>
  bs[(a - t).toNat]?.getD (m a)

/-- The `n` bytes from `t`. -/
def readBytes (m : Mem w) (t : BitVec w) (n : ℕ) : List Byte :=
  (List.range n).map fun i => m (t + BitVec.ofNat w i)

@[simp] theorem readBytes_length (m : Mem w) (t : BitVec w) (n : ℕ) :
    (readBytes m t n).length = n := by
  simp [readBytes]

theorem getElem_readBytes (m : Mem w) (t : BitVec w) (n i : ℕ) (h : i < (readBytes m t n).length) :
    (readBytes m t n)[i] = m (t + BitVec.ofNat w i) := by
  simp [readBytes]

theorem write_of_inRange {m : Mem w} {t : BitVec w} {bs : List Byte} {a : BitVec w}
    (h : (a - t).toNat < bs.length) : write m t bs a = bs[(a - t).toNat] := by
  rw [write, List.getElem?_eq_getElem h, Option.getD_some]

theorem write_of_not_inRange {m : Mem w} {t : BitVec w} {bs : List Byte} {a : BitVec w}
    (h : ¬ InRange t bs.length a) : write m t bs a = m a := by
  rw [write, List.getElem?_eq_none (Nat.le_of_not_lt h), Option.getD_none]

/-- The byte `i` of a block is found `i` bytes past its start. -/
theorem write_add {m : Mem w} {t : BitVec w} {bs : List Byte} {i : ℕ} (hi : i < bs.length)
    (hw : bs.length ≤ 2 ^ w) : write m t bs (t + BitVec.ofNat w i) = bs[i] := by
  rw [write_of_inRange (inRange_add hi hw)]
  simp only [add_sub_toNat t (Nat.lt_of_lt_of_le hi hw)]

/-- A block is read back from where it was copied to. -/
theorem readBytes_write (m : Mem w) (t : BitVec w) {bs : List Byte} (hw : bs.length ≤ 2 ^ w) :
    readBytes (write m t bs) t bs.length = bs := by
  refine List.ext_getElem (readBytes_length ..) fun i h hi => ?_
  rw [getElem_readBytes, write_add hi hw]

theorem take_readBytes (m : Mem w) (t : BitVec w) {k n : ℕ} (h : k ≤ n) :
    (readBytes m t n).take k = readBytes m t k := by
  simp [readBytes, ← List.map_take, List.take_range, Nat.min_eq_left h]

/-! ## Buffers -/

/-- Copy `bs` into a buffer at an offset; the buffer keeps its length. -/
def overwrite (buf : List Byte) (off : ℕ) (bs : List Byte) : List Byte :=
  buf.mapIdx fun i b => if off ≤ i then bs[i - off]?.getD b else b

@[simp] theorem overwrite_length (buf : List Byte) (off : ℕ) (bs : List Byte) :
    (overwrite buf off bs).length = buf.length := by
  simp [overwrite]

theorem getElem?_overwrite_of_in {buf bs : List Byte} {off i : ℕ} (hi : off ≤ i)
    (hi' : i < off + bs.length) (hb : i < buf.length) :
    (overwrite buf off bs)[i]? = bs[i - off]? := by
  have hk : i - off < bs.length := by omega
  simp [overwrite, List.getElem?_mapIdx, List.getElem?_eq_getElem hb, hi,
    List.getElem?_eq_getElem hk]

theorem getElem?_overwrite_of_out {buf bs : List Byte} {off i : ℕ}
    (h : i < off ∨ off + bs.length ≤ i) : (overwrite buf off bs)[i]? = buf[i]? := by
  by_cases hb : i < buf.length
  · by_cases hi : off ≤ i
    · have hk : bs[i - off]? = none := List.getElem?_eq_none (by omega)
      simp [overwrite, List.getElem?_mapIdx, List.getElem?_eq_getElem hb, hi, hk]
    · simp [overwrite, List.getElem?_mapIdx, List.getElem?_eq_getElem hb, hi]
  · rw [List.getElem?_eq_none (by simpa using hb), List.getElem?_eq_none (by simpa using hb)]

/-- A buffer after a copy: what was before the block, the block, what was behind it. -/
theorem overwrite_eq {buf bs : List Byte} {off : ℕ} (h : off + bs.length ≤ buf.length) :
    overwrite buf off bs = buf.take off ++ bs ++ buf.drop (off + bs.length) := by
  have hlen : (buf.take off).length = off := List.length_take_of_le (by omega)
  refine List.ext_getElem? fun i => ?_
  rcases Nat.lt_or_ge i off with hlt | hge
  · rw [getElem?_overwrite_of_out (Or.inl hlt), List.append_assoc,
      List.getElem?_append_left (by omega), List.getElem?_take_of_lt hlt]
  · rw [List.append_assoc, List.getElem?_append_right (by omega), hlen]
    rcases Nat.lt_or_ge i (off + bs.length) with hin | hout
    · rw [getElem?_overwrite_of_in hge hin (by omega), List.getElem?_append_left (by omega)]
    · rw [getElem?_overwrite_of_out (Or.inr hout), List.getElem?_append_right (by omega),
        List.getElem?_drop]
      congr 1
      omega

theorem overwrite_zero {buf bs : List Byte} (h : bs.length ≤ buf.length) :
    overwrite buf 0 bs = bs ++ buf.drop bs.length := by
  have heq := @overwrite_eq buf bs 0 (by omega)
  simpa using heq

/-- Two copies one behind the other are one copy. -/
theorem overwrite_append (buf bs bs' : List Byte) (off : ℕ) :
    overwrite buf off (bs ++ bs') = overwrite (overwrite buf off bs) (off + bs.length) bs' := by
  refine List.ext_getElem? fun i => ?_
  rcases Nat.lt_or_ge i buf.length with hb | hb
  · rcases Nat.lt_or_ge i off with hlt | hge
    · rw [getElem?_overwrite_of_out (Or.inl hlt), getElem?_overwrite_of_out (Or.inl (by omega)),
        getElem?_overwrite_of_out (Or.inl hlt)]
    · rcases Nat.lt_or_ge i (off + bs.length) with hin | hout
      · rw [getElem?_overwrite_of_in hge (by simp; omega) hb,
          getElem?_overwrite_of_out (Or.inl hin), getElem?_overwrite_of_in hge hin hb,
          List.getElem?_append_left (by omega)]
      · rcases Nat.lt_or_ge i (off + bs.length + bs'.length) with hin' | hout'
        · rw [getElem?_overwrite_of_in hge (by simp; omega) hb,
            getElem?_overwrite_of_in hout hin' (by simpa using hb),
            List.getElem?_append_right (by omega), Nat.sub_sub]
        · rw [getElem?_overwrite_of_out (Or.inr (by simp; omega)),
            getElem?_overwrite_of_out (Or.inr hout'), getElem?_overwrite_of_out (Or.inr hout)]
  · rw [List.getElem?_eq_none (by simpa using hb), List.getElem?_eq_none (by simpa using hb)]

/-! ## Little-endian words -/

/-- The `n` bytes of a word, least significant first. -/
def leBytes : (n : ℕ) → BitVec (8 * n) → List Byte
  | 0, _ => []
  | n + 1, v => v.extractLsb' 0 8 :: leBytes n (v.extractLsb' 8 (8 * n))

/-- The word whose bytes, least significant first, are `f 0, …, f (n - 1)`. -/
def leWord : (n : ℕ) → (ℕ → Byte) → BitVec (8 * n)
  | 0, _ => 0#0
  | n + 1, f => (leWord n fun i => f (i + 1)) ++ f 0

@[simp] theorem leBytes_length (n : ℕ) (v : BitVec (8 * n)) : (leBytes n v).length = n := by
  induction n with
  | zero => rfl
  | succ n ih => simp [leBytes, ih]

theorem append_extract (n : ℕ) (v : BitVec (8 * n + 8)) :
    v.extractLsb' 8 (8 * n) ++ v.extractLsb' 0 8 = v := by
  ext i hi
  simp only [BitVec.getElem_append, BitVec.getElem_extractLsb', Nat.zero_add]
  split
  · rw [BitVec.getLsbD_eq_getElem]
  · rw [show 8 + (i - 8) = i by omega, BitVec.getLsbD_eq_getElem]

/-- A word is read back from its own bytes. -/
theorem leWord_of_bytes {n : ℕ} {v : BitVec (8 * n)} {f : ℕ → Byte}
    (h : ∀ i < n, (leBytes n v)[i]? = some (f i)) : leWord n f = v := by
  induction n generalizing f with
  | zero => exact BitVec.eq_of_zero_length rfl
  | succ n ih =>
    have h0 : v.extractLsb' 0 8 = f 0 := by simpa [leBytes] using h 0 (by omega)
    have ht : leWord n (fun i => f (i + 1)) = v.extractLsb' 8 (8 * n) :=
      ih fun i hi => by simpa [leBytes] using h (i + 1) (by omega)
    rw [leWord, ht, ← h0]
    exact append_extract n v

/-- The word of `n` bytes at an address. -/
def readWord (n : ℕ) (m : Mem w) (a : BitVec w) : BitVec (8 * n) :=
  leWord n fun i => m (a + BitVec.ofNat w i)

/-- The word of `n` bytes at an offset of a buffer. -/
def bufWord (n : ℕ) (buf : List Byte) (off : ℕ) : BitVec (8 * n) :=
  leWord n fun i => (buf[off + i]?).getD 0

/-- The bytes of a word are the ones it is made of. -/
theorem leBytes_leWord (n : ℕ) (f : ℕ → Byte) : leBytes n (leWord n f) = (List.range n).map f := by
  induction n generalizing f with
  | zero => rfl
  | succ n ih =>
    rw [leBytes, leWord, BitVec.extractLsb'_append_eq_right, BitVec.extractLsb'_append_eq_left, ih,
      List.range_succ_eq_map, List.map_cons, List.map_map]
    rfl

theorem leWord_congr {n : ℕ} {f g : ℕ → Byte} (h : ∀ i < n, f i = g i) :
    leWord n f = leWord n g := by
  induction n generalizing f g with
  | zero => rfl
  | succ n ih => rw [leWord, leWord, h 0 (by omega), ih fun i hi => h (i + 1) (by omega)]

/-- A word beside the bytes copied is unchanged. -/
theorem bufWord_overwrite_of_out {n : ℕ} {buf bs : List Byte} {off off' : ℕ}
    (h : off' + n ≤ off ∨ off + bs.length ≤ off') :
    bufWord n (overwrite buf off bs) off' = bufWord n buf off' :=
  leWord_congr fun i hi => by rw [getElem?_overwrite_of_out (by omega)]

theorem bufWord_overwrite {n : ℕ} {buf : List Byte} {off : ℕ} (v : BitVec (8 * n))
    (h : off + n ≤ buf.length) : bufWord n (overwrite buf off (leBytes n v)) off = v := by
  refine leWord_of_bytes fun i hi => ?_
  rw [getElem?_overwrite_of_in (by omega) (by simp; omega) (by omega), Nat.add_sub_cancel_left,
    List.getElem?_eq_getElem (by simpa using hi), Option.getD_some]

theorem bufWord_leBytes {n : ℕ} (v : BitVec (8 * n)) : bufWord n (leBytes n v) 0 = v :=
  leWord_of_bytes fun i hi => by
    rw [Nat.zero_add, List.getElem?_eq_getElem (by simpa using hi), Option.getD_some]

/-- A word inside the bytes copied is one of them. -/
theorem bufWord_overwrite_of_in {n : ℕ} {buf bs : List Byte} {off k : ℕ}
    (hk : k + n ≤ bs.length) (hbuf : off + bs.length ≤ buf.length) :
    bufWord n (overwrite buf off bs) (off + k) = bufWord n bs k :=
  leWord_congr fun i hi => by
    rw [getElem?_overwrite_of_in (by omega) (by omega) (by omega), Nat.add_assoc,
      Nat.add_sub_cancel_left]

theorem bufWord_append_left {n : ℕ} {bs bs' : List Byte} {k : ℕ} (hk : k + n ≤ bs.length) :
    bufWord n (bs ++ bs') k = bufWord n bs k :=
  leWord_congr fun i hi => by rw [List.getElem?_append_left (by omega)]

theorem bufWord_append_right {n : ℕ} (bs bs' : List Byte) (k : ℕ) :
    bufWord n (bs ++ bs') (bs.length + k) = bufWord n bs' k :=
  leWord_congr fun i _ => by
    rw [List.getElem?_append_right (by omega), Nat.add_assoc, Nat.add_sub_cancel_left]

/-- A word whose bytes lie in a block is read from the block. -/
theorem readWord_of_bytes {n : ℕ} {m : Mem w} {a : BitVec w} {v : BitVec (8 * n)}
    (h : ∀ i < n, (leBytes n v)[i]? = some (m (a + BitVec.ofNat w i))) : readWord n m a = v :=
  leWord_of_bytes h

/-- A word is read from a block that was read from memory. -/
theorem readWord_eq_bufWord {n N : ℕ} {m : Mem w} {t : BitVec w} {off : ℕ} (h : off + n ≤ N) :
    readWord n m (t + BitVec.ofNat w off) = bufWord n (readBytes m t N) off :=
  leWord_congr fun i hi => by
    rw [List.getElem?_eq_getElem (by simp; omega), Option.getD_some, getElem_readBytes,
      BitVec.add_assoc, ← BitVec.ofNat_add]

/-- The bytes of a list of words. -/
def leWords (n : ℕ) (ws : List (BitVec (8 * n))) : List Byte := ws.flatMap (leBytes n)

@[simp] theorem leWords_length (n : ℕ) (ws : List (BitVec (8 * n))) :
    (leWords n ws).length = n * ws.length := by
  induction ws with
  | nil => rfl
  | cons v ws ih =>
    rw [leWords, List.flatMap_cons, List.length_append, leBytes_length, List.length_cons,
      Nat.mul_succ, Nat.add_comm]
    exact congrArg (· + n) ih

theorem getElem?_leWords {n : ℕ} {ws : List (BitVec (8 * n))} {v : BitVec (8 * n)} {j i : ℕ}
    (hv : ws[j]? = some v) (hi : i < n) : (leWords n ws)[n * j + i]? = (leBytes n v)[i]? := by
  induction ws generalizing j with
  | nil => simp at hv
  | cons u ws ih =>
    rw [leWords, List.flatMap_cons]
    cases j with
    | zero =>
      cases hv
      rw [Nat.mul_zero, Nat.zero_add, List.getElem?_append_left (by simpa using hi)]
    | succ j =>
      have hle : n * (j + 1) + i - n = n * j + i := by rw [Nat.mul_succ]; omega
      rw [List.getElem?_append_right (by rw [leBytes_length, Nat.mul_succ]; omega),
        leBytes_length, hle]
      exact ih (by simpa using hv)

/-- A word of a list of words. -/
theorem bufWord_leWords {n : ℕ} {ws : List (BitVec (8 * n))} {j : ℕ} {v : BitVec (8 * n)}
    (hv : ws[j]? = some v) : bufWord n (leWords n ws) (n * j) = v := by
  refine leWord_of_bytes fun i hi => ?_
  rw [getElem?_leWords hv hi, List.getElem?_eq_getElem (by simpa using hi), Option.getD_some]

/-- A word of a list of words that was copied into a buffer. -/
theorem bufWord_overwrite_leWords {n : ℕ} {ws : List (BitVec (8 * n))} {buf : List Byte}
    {off j : ℕ} {v : BitVec (8 * n)} (hv : ws[j]? = some v)
    (h : off + n * ws.length ≤ buf.length) :
    bufWord n (overwrite buf off (leWords n ws)) (off + n * j) = v := by
  have hj : j < ws.length := (List.getElem?_eq_some_iff.mp hv).1
  have hle : n * j + n ≤ n * ws.length := by
    rw [← Nat.mul_succ]
    exact Nat.mul_le_mul_left n hj
  rw [bufWord_overwrite_of_in (by rwa [leWords_length]) (by rwa [leWords_length])]
  exact bufWord_leWords hv

/-! ## Blocks in memory -/

/-- The block `bs` stands at `t`. -/
def Holds (m : Mem w) (t : BitVec w) (bs : List Byte) : Prop := readBytes m t bs.length = bs

theorem readBytes_add (m : Mem w) (t : BitVec w) (k n : ℕ) :
    readBytes m t (k + n) = readBytes m t k ++ readBytes m (t + BitVec.ofNat w k) n := by
  simp [readBytes, List.range_add, Function.comp_def, BitVec.ofNat_add, BitVec.add_assoc]

theorem holds_append {m : Mem w} {t : BitVec w} {bs bs' : List Byte} :
    Holds m t (bs ++ bs') ↔ Holds m t bs ∧ Holds m (t + BitVec.ofNat w bs.length) bs' := by
  rw [Holds, List.length_append, readBytes_add]
  exact List.append_eq_append_iff_of_size_eq_left (readBytes_length ..)

theorem Holds.byte {m : Mem w} {t : BitVec w} {bs : List Byte} (h : Holds m t bs) {i : ℕ}
    (hi : i < bs.length) : m (t + BitVec.ofNat w i) = bs[i] := by
  have hread := getElem_readBytes m t bs.length i (by simpa using hi)
  rw [← hread]
  exact List.getElem_of_eq h _

theorem holds_of_bytes {m : Mem w} {t : BitVec w} {bs : List Byte}
    (h : ∀ i (hi : i < bs.length), m (t + BitVec.ofNat w i) = bs[i]) : Holds m t bs := by
  refine List.ext_getElem (readBytes_length ..) fun i hi hi' => ?_
  rw [getElem_readBytes, h i hi']

theorem holds_readWord (n : ℕ) (m : Mem w) (t : BitVec w) :
    Holds m t (leBytes n (readWord n m t)) := by
  rw [Holds, leBytes_length, readWord, leBytes_leWord]
  rfl

theorem Holds.word {m : Mem w} {t : BitVec w} {n : ℕ} {v : BitVec (8 * n)}
    (h : Holds m t (leBytes n v)) : readWord n m t = v := by
  refine readWord_of_bytes fun i hi => ?_
  rw [List.getElem?_eq_getElem (by simpa using hi), h.byte]

theorem holds_write (m : Mem w) (t : BitVec w) {bs : List Byte} (hw : bs.length ≤ 2 ^ w) :
    Holds (write m t bs) t bs :=
  readBytes_write m t hw

/-- A block is kept by whatever changes none of its bytes. -/
theorem Holds.congr {m m' : Mem w} {t : BitVec w} {bs : List Byte} (h : Holds m t bs)
    (hw : bs.length ≤ 2 ^ w) (hsame : ∀ a, InRange t bs.length a → m' a = m a) :
    Holds m' t bs :=
  holds_of_bytes fun i hi => by rw [hsame _ (inRange_add hi hw), h.byte hi]

/-! ## Displacements -/

/-- A word whose value fits in fewer bits is the sign extension of those bits. -/
theorem signExtend_setWidth {n : ℕ} {d : BitVec w} (hn : n + 1 ≤ w)
    (h : -2 ^ n ≤ d.toInt ∧ d.toInt < 2 ^ n) : (d.setWidth (n + 1)).signExtend w = d := by
  apply BitVec.eq_of_toInt_eq
  have hpow : (2 : Int) ^ (n + 1) = 2 * 2 ^ n := by rw [Int.pow_succ, Int.mul_comm]
  rw [BitVec.toInt_signExtend_of_le hn, BitVec.toInt_setWidth,
    ← Int.bmod_bmod_of_dvd (Nat.pow_dvd_pow 2 hn), ← BitVec.toInt_eq_toNat_bmod,
    Int.bmod_eq_of_le]
  all_goals
    push_cast
    omega

/-- The displacement from `src` to `dst`, cut to `n + 1` bits, leads to `dst` when it fits. -/
theorem add_displacement {n : ℕ} {src dst : BitVec w} (hn : n + 1 ≤ w)
    (h : -2 ^ n ≤ (dst - src).toInt ∧ (dst - src).toInt < 2 ^ n) :
    src + ((dst - src).setWidth (n + 1)).signExtend w = dst := by
  rw [signExtend_setWidth hn h, BitVec.add_comm, BitVec.sub_add_cancel]

/-! ## Patches -/

/-- A block of bytes and the address it is copied to. -/
structure Patch (w : ℕ) where
  addr : BitVec w
  code : List Byte
  deriving DecidableEq, Repr

/-- The bytes a patch overwrites. -/
def Patch.Covers (p : Patch w) (a : BitVec w) : Prop := InRange p.addr p.code.length a

instance (p : Patch w) (a : BitVec w) : Decidable (p.Covers a) :=
  inferInstanceAs (Decidable (InRange _ _ _))

/-- The byte a patch puts at `a`. -/
def Patch.byteAt (p : Patch w) (a : BitVec w) : Option Byte := p.code[(a - p.addr).toNat]?

theorem Patch.byteAt_isSome {p : Patch w} {a : BitVec w} : (p.byteAt a).isSome ↔ p.Covers a := by
  simp [Patch.byteAt, Patch.Covers, InRange]

theorem Patch.byteAt_eq_none {p : Patch w} {a : BitVec w} : p.byteAt a = none ↔ ¬ p.Covers a := by
  simp [Patch.byteAt, Patch.Covers, InRange]

theorem Patch.byteAt_add {p : Patch w} {i : ℕ} (hi : i < p.code.length)
    (hw : p.code.length ≤ 2 ^ w) : p.byteAt (p.addr + BitVec.ofNat w i) = some p.code[i] := by
  rw [Patch.byteAt, add_sub_toNat _ (Nat.lt_of_lt_of_le hi hw), List.getElem?_eq_getElem hi]

/-- Apply patches in order. -/
def writeAll : List (Patch w) → Mem w → Mem w
  | [], m => m
  | p :: ps, m => writeAll ps (write m p.addr p.code)

/-- The byte the last covering patch puts at `a`, if any patch covers `a`. -/
def lastWrite : List (Patch w) → BitVec w → Option Byte
  | [], _ => none
  | p :: ps, a => (lastWrite ps a).or (p.byteAt a)

theorem write_eq_byteAt (m : Mem w) (p : Patch w) (a : BitVec w) :
    write m p.addr p.code a = (p.byteAt a).getD (m a) := rfl

/-- **The effect of a patch list.** Each byte is the one its last covering patch wrote. -/
theorem writeAll_apply (ps : List (Patch w)) (m : Mem w) (a : BitVec w) :
    writeAll ps m a = (lastWrite ps a).getD (m a) := by
  induction ps generalizing m with
  | nil => rfl
  | cons p ps ih =>
    rw [writeAll, ih, lastWrite, write_eq_byteAt]
    cases lastWrite ps a <;> rfl

theorem writeAll_append (ps qs : List (Patch w)) (m : Mem w) :
    writeAll (ps ++ qs) m = writeAll qs (writeAll ps m) := by
  induction ps generalizing m with
  | nil => rfl
  | cons p ps ih => exact ih _

theorem lastWrite_eq_none {ps : List (Patch w)} {a : BitVec w} :
    lastWrite ps a = none ↔ ∀ p ∈ ps, ¬ p.Covers a := by
  induction ps with
  | nil => simp [lastWrite]
  | cons p ps ih =>
    rw [lastWrite, Option.or_eq_none_iff, ih, Patch.byteAt_eq_none]
    simp [and_comm]

/-- The byte found by `lastWrite` is one that some patch of the list writes there. -/
theorem lastWrite_mem {ps : List (Patch w)} {a : BitVec w} {b : Byte}
    (h : lastWrite ps a = some b) : ∃ p ∈ ps, p.byteAt a = some b := by
  induction ps with
  | nil => cases h
  | cons p ps ih =>
    rw [lastWrite, Option.or_eq_some_iff] at h
    rcases h with h | ⟨-, h⟩
    · obtain ⟨q, hq, hb⟩ := ih h
      exact ⟨q, List.mem_cons_of_mem p hq, hb⟩
    · exact ⟨p, List.mem_cons_self, h⟩

/-- Bytes no patch covers are unchanged. -/
theorem writeAll_frame {ps : List (Patch w)} {m : Mem w} {a : BitVec w}
    (h : ∀ p ∈ ps, ¬ p.Covers a) : writeAll ps m a = m a := by
  rw [writeAll_apply, lastWrite_eq_none.mpr h, Option.getD_none]

/-- If every patch that covers `a` writes `b` there, a covered `a` ends up holding `b`. -/
theorem writeAll_agree {ps : List (Patch w)} {m : Mem w} {a : BitVec w} {b : Byte}
    (hb : ∀ p ∈ ps, p.Covers a → p.byteAt a = some b) (hc : ∃ p ∈ ps, p.Covers a) :
    writeAll ps m a = b := by
  rw [writeAll_apply]
  cases h : lastWrite ps a with
  | none =>
    obtain ⟨p, hp, hpc⟩ := hc
    exact absurd hpc (lastWrite_eq_none.mp h p hp)
  | some c =>
    obtain ⟨p, hp, hpc⟩ := lastWrite_mem h
    have hcov : p.Covers a := Patch.byteAt_isSome.mp (by rw [hpc]; rfl)
    exact Option.some.inj (hpc.symm.trans (hb p hp hcov))

/-! ## Pointers in memory -/

/-- The pointer at an address. -/
def readPtr (m : Mem w) (a : BitVec w) : BitVec w := (readWord (w / 8) m a).setWidth w

def writePtr (m : Mem w) (a v : BitVec w) : Mem w :=
  write m a (leBytes (w / 8) (v.setWidth (8 * (w / 8))))

theorem readPtr_writePtr (m : Mem w) (a v : BitVec w) (hw : 8 * (w / 8) = w) :
    readPtr (writePtr m a v) a = v := by
  have hlen : (leBytes (w / 8) (v.setWidth (8 * (w / 8)))).length ≤ 2 ^ w := by
    rw [leBytes_length]
    exact Nat.le_trans (Nat.div_le_self w 8) (Nat.le_of_lt Nat.lt_two_pow_self)
  have hword : readWord (w / 8) (writePtr m a v) a = v.setWidth (8 * (w / 8)) :=
    (holds_write m a hlen).word
  rw [readPtr, hword, BitVec.setWidth_setWidth_of_le _ (by omega), BitVec.setWidth_eq]

end ByteMemory
