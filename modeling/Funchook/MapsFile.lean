import Mathlib.Data.Nat.Digits.Lemmas
import Funchook.OsUnix

/-!
# The reader of `/proc/self/maps` (`os_unix.c`, Linux)

`memory_map_next` reads a line through a buffer of `PATH_MAX` bytes and takes two hexadecimal
numbers from its start. A path name may be as long as the buffer, and the fields before it make the
line longer: what does not fit is read by the next call as a line of its own.
-/

namespace Funchook.Unix

open ByteMemory

/-! ## The reader -/

/-- `PATH_MAX` -/
def pathMax : ℕ := 4096

def newline : Byte := 0x0a

/-- The bytes that `fgets` takes from a file, and those left: at most `n`, up to a newline. -/
def takeLine : ℕ → List Byte → List Byte × List Byte
  | 0, cs => ([], cs)
  | _ + 1, [] => ([], [])
  | n + 1, c :: cs =>
    if c = newline then ([c], cs)
    else
      let r := takeLine n cs
      (c :: r.1, r.2)

/-- `fgets` with a buffer of `size` bytes, one of which is for the terminator. -/
def fgets (size : ℕ) (file : List Byte) : Option (List Byte × List Byte) :=
  if file = [] then none else some (takeLine (size - 1) file)

/-- `scan_address`: the character that ends the number, the number and what follows. A byte from
`0x80` on is no digit, whether `char` is signed or not. -/
def scanAddress : Addr 64 → List Byte → Byte × Addr 64 × List Byte
  | addr, [] => (0, addr, [])
  | addr, c :: s =>
    if 0x30 ≤ c ∧ c ≤ 0x39 then scanAddress (addr * 16 + (c.setWidth 64 - 0x30)) s
    else if 0x61 ≤ c ∧ c ≤ 0x66 then scanAddress (addr * 16 + (c.setWidth 64 - 0x61 + 10)) s
    else (c, addr, s)

/-- The two numbers that `memory_map_next` takes from its buffer. -/
def scanRegion (buf : List Byte) : Option Region :=
  let start := scanAddress 0 buf
  if start.1 = 0x2d then
    let stop := scanAddress 0 start.2.2
    if stop.1 = 0x20 then some ⟨start.2.1, stop.2.1⟩ else none
  else none

/-- `memory_map_next`, with what is left of the file; `none` stands for -1. -/
def memoryMapNext (file : List Byte) : Option Region × List Byte :=
  match fgets pathMax file with
  | none => (none, file)
  | some (buf, rest) => (scanRegion buf, rest)

/-- What so many calls return one after the other. -/
def memoryMapCalls : ℕ → List Byte → List (Option Region)
  | 0, _ => []
  | n + 1, file => (memoryMapNext file).1 :: memoryMapCalls n (memoryMapNext file).2

/-! ## The file -/

/-- A digit in lower case. -/
def digitByte (d : ℕ) : Byte :=
  if d < 10 then BitVec.ofNat 8 (0x30 + d) else BitVec.ofNat 8 (0x61 + (d - 10))

/-- A number in a base, with zeros in front of it up to a width. -/
def printNum (base width n : ℕ) : List Byte :=
  (List.replicate (width - (Nat.digits base n).length) 0 ++ (Nat.digits base n).reverse).map
    digitByte

/-- A line of the file; without a path name `path` is empty. -/
structure MapsLine where
  region : Region
  read : Bool
  write : Bool
  exec : Bool
  shared : Bool
  offset : BitVec 64
  major : BitVec 12
  minor : BitVec 20
  inode : BitVec 64
  path : List Byte
  path_le : path.length ≤ pathMax
  path_line : newline ∉ path

namespace MapsLine

variable (l : MapsLine)

/-- What the reader takes its numbers from. -/
def addresses : List Byte :=
  printNum 16 8 l.region.start.toNat ++ 0x2d :: (printNum 16 8 l.region.stop.toNat ++ [0x20])

def perms : List Byte :=
  [if l.read then 0x72 else 0x2d, if l.write then 0x77 else 0x2d, if l.exec then 0x78 else 0x2d,
    if l.shared then 0x73 else 0x70]

/-- The fields between the addresses and the path name. -/
def fields : List Byte :=
  l.perms ++ 0x20 :: (printNum 16 8 l.offset.toNat ++ 0x20 :: (printNum 16 2 l.major.toNat ++
    0x3a :: (printNum 16 2 l.minor.toNat ++ 0x20 :: (printNum 10 1 l.inode.toNat ++ [0x20]))))

/-- A path name begins in column 73, or behind the fields if they are longer. -/
def padding : List Byte :=
  if l.path = [] then []
  else List.replicate (73 - (l.addresses.length + l.fields.length)) 0x20

def text : List Byte := l.addresses ++ (l.fields ++ (l.padding ++ l.path))

def bytes : List Byte := l.text ++ [newline]

/-- The line fits into the buffer. -/
def Fits : Prop := l.bytes.length ≤ pathMax - 1

/-- What is left of the line for the next call. -/
def leftover : List Byte := l.bytes.drop (pathMax - 1)

end MapsLine

/-- The content of a file with these lines. -/
def mapsFile (lines : List MapsLine) : List Byte := lines.flatMap MapsLine.bytes

/-! ## Numbers -/

theorem scanAddress_digit {d : ℕ} (hd : d < 16) (addr : Addr 64) (s : List Byte) :
    scanAddress addr (digitByte d :: s) = scanAddress (addr * 16 + BitVec.ofNat 64 d) s := by
  have hdigit : ∀ d < 16, (0x30 ≤ digitByte d ∧ digitByte d ≤ 0x39 ∧
      (digitByte d).setWidth 64 - 0x30 = BitVec.ofNat 64 d) ∨
        (¬ (0x30 ≤ digitByte d ∧ digitByte d ≤ 0x39) ∧ 0x61 ≤ digitByte d ∧ digitByte d ≤ 0x66 ∧
          (digitByte d).setWidth 64 - 0x61 + 10 = BitVec.ofNat 64 d) := by decide
  rcases hdigit d hd with ⟨hlow, hhigh, hvalue⟩ | ⟨hnot, hlow, hhigh, hvalue⟩
  · rw [scanAddress, if_pos ⟨hlow, hhigh⟩, hvalue]
  · rw [scanAddress, if_neg hnot, if_pos ⟨hlow, hhigh⟩, hvalue]

theorem scanAddress_digits {ds : List ℕ} (hds : ∀ d ∈ ds, d < 16) (addr : Addr 64)
    (s : List Byte) :
    scanAddress addr (ds.map digitByte ++ s) =
      scanAddress (ds.foldl (fun a d => a * 16 + BitVec.ofNat 64 d) addr) s := by
  induction ds generalizing addr with
  | nil => rfl
  | cons d ds ih =>
    rw [List.map_cons, List.cons_append, scanAddress_digit (hds d List.mem_cons_self),
      ih fun d' hd' => hds d' (List.mem_cons_of_mem d hd')]
    rfl

/-- The accumulation modulo 2 ^ 64 is the number that the digits stand for. -/
theorem foldl_digits (ds : List ℕ) (n : ℕ) :
    ds.foldl (fun a d => a * 16 + BitVec.ofNat 64 d) (BitVec.ofNat 64 n) =
      BitVec.ofNat 64 (ds.foldl (fun a d => a * 16 + d) n) := by
  induction ds generalizing n with
  | nil => rfl
  | cons d ds ih =>
    rw [List.foldl_cons, List.foldl_cons, ← ih, BitVec.ofNat_add, BitVec.ofNat_mul]
    rfl

theorem foldl_printNum (width n : ℕ) :
    (List.replicate (width - (Nat.digits 16 n).length) 0 ++ (Nat.digits 16 n).reverse).foldl
      (fun a d => a * 16 + d) 0 = n := by
  have hzeros : ∀ k, (List.replicate k 0).foldl (fun a d => a * 16 + d) 0 = 0 := by
    intro k
    induction k with
    | zero => rfl
    | succ k ih => exact ih
  rw [List.foldl_append, hzeros, List.foldl_reverse]
  calc (Nat.digits 16 n).foldr (fun d a => a * 16 + d) 0
    _ = (Nat.digits 16 n).foldr (fun d a => ↑d + 16 * a) 0 := by
        simp only [Nat.mul_comm _ 16, Nat.add_comm (16 * _)]
    _ = Nat.ofDigits 16 (Nat.digits 16 n) := (Nat.ofDigits_eq_foldr _ _).symm
    _ = n := Nat.ofDigits_digits 16 n

/-- **A printed number** is read back, up to the character behind it. -/
theorem scanAddress_printNum (width : ℕ) (a : Addr 64) (s : List Byte) :
    scanAddress 0 (printNum 16 width a.toNat ++ s) = scanAddress a s := by
  have hds : ∀ d ∈ List.replicate (width - (Nat.digits 16 a.toNat).length) 0 ++
      (Nat.digits 16 a.toNat).reverse, d < 16 := by
    intro d hd
    rcases List.mem_append.mp hd with hd | hd
    · rw [List.eq_of_mem_replicate hd]
      decide
    · exact Nat.digits_lt_base (by decide) (List.mem_reverse.mp hd)
  rw [printNum, scanAddress_digits hds]
  rw [show (0 : Addr 64) = BitVec.ofNat 64 0 from rfl, foldl_digits, foldl_printNum,
    BitVec.ofNat_toNat, BitVec.setWidth_eq]

theorem scanAddress_stop {c : Byte} (hc : c = 0x2d ∨ c = 0x20) (addr : Addr 64) (s : List Byte) :
    scanAddress addr (c :: s) = (c, addr, s) := by
  rcases hc with rfl | rfl
  · rfl
  · rfl

/-- The region of a line is read, whatever follows its addresses. -/
theorem scanRegion_addresses (l : MapsLine) (s : List Byte) :
    scanRegion (l.addresses ++ s) = some l.region := by
  have hstart : scanAddress 0 (l.addresses ++ s) =
      (0x2d, l.region.start, printNum 16 8 l.region.stop.toNat ++ 0x20 :: s) := by
    rw [MapsLine.addresses, List.append_assoc, scanAddress_printNum, List.cons_append,
      scanAddress_stop (Or.inl rfl), List.append_assoc]
    rfl
  have hstop : scanAddress 0 (printNum 16 8 l.region.stop.toNat ++ 0x20 :: s) =
      (0x20, l.region.stop, s) := by
    rw [scanAddress_printNum, scanAddress_stop (Or.inr rfl)]
  unfold scanRegion
  rw [hstart]
  dsimp only
  rw [if_pos rfl, hstop]
  rfl

/-! ## Lines and the buffer -/

theorem takeLine_line {text : List Byte} (htext : newline ∉ text) (n : ℕ) (rest : List Byte) :
    takeLine n (text ++ newline :: rest) =
      ((text ++ [newline]).take n, (text ++ [newline]).drop n ++ rest) := by
  induction text generalizing n with
  | nil =>
    cases n with
    | zero => rfl
    | succ n => simp [takeLine]
  | cons c text ih =>
    cases n with
    | zero => simp [takeLine]
    | succ n =>
      have hc : c ≠ newline := fun h => htext (h ▸ List.mem_cons_self)
      have hrest := ih (fun h => htext (List.mem_cons_of_mem c h)) n
      rw [List.cons_append, takeLine, if_neg hc, hrest]
      rfl

theorem digitByte_ne_newline {d : ℕ} (hd : d < 16) : digitByte d ≠ newline := by
  revert d
  decide

theorem printNum_text (base width n : ℕ) (hbase : 1 < base) (hle : base ≤ 16) :
    newline ∉ printNum base width n := by
  intro h
  obtain ⟨d, hd, heq⟩ := List.mem_map.mp h
  refine digitByte_ne_newline ?_ heq
  rcases List.mem_append.mp hd with hd | hd
  · rw [List.eq_of_mem_replicate hd]
    decide
  · exact Nat.lt_of_lt_of_le (Nat.digits_lt_base hbase (List.mem_reverse.mp hd)) hle

theorem printNum_length (base k width : ℕ) {n : ℕ} (hbase : 1 < base) (hn : n < base ^ k) :
    (printNum base width n).length ≤ max width k := by
  have hlen := (Nat.digits_length_le_iff hbase n).mpr hn
  rw [printNum, List.length_map, List.length_append, List.length_replicate, List.length_reverse]
  omega

namespace MapsLine

variable (l : MapsLine)

theorem text_line : newline ∉ l.text := by
  have hhex := fun width n => printNum_text 16 width n (by decide) (by decide)
  have hdec := fun width n => printNum_text 10 width n (by decide) (by decide)
  have hpadding : newline ∉ l.padding := by
    unfold padding
    split
    · exact List.not_mem_nil
    · intro h
      exact absurd (List.eq_of_mem_replicate h) (by decide)
  have hperms : newline ∉ l.perms := by
    unfold perms
    cases l.read <;> cases l.write <;> cases l.exec <;> cases l.shared <;> decide
  -- what is left are the separators
  simp [text, addresses, fields, hhex, hdec, hpadding, hperms, l.path_line]
  decide

theorem addresses_length : l.addresses.length ≤ 34 := by
  have hstart := printNum_length 16 16 8 (by decide) l.region.start.isLt
  have hstop := printNum_length 16 16 8 (by decide) l.region.stop.isLt
  simp only [addresses, List.length_append, List.length_cons, List.length_nil]
  omega

theorem fields_length : l.fields.length ≤ 53 := by
  have hoffset := printNum_length 16 16 8 (by decide) l.offset.isLt
  have hmajor := printNum_length 16 3 2 (by decide) l.major.isLt
  have hminor := printNum_length 16 5 2 (by decide) l.minor.isLt
  have hinode := printNum_length 10 20 1 (by decide) (Nat.lt_trans l.inode.isLt (by decide))
  simp only [fields, perms, List.length_append, List.length_cons, List.length_nil]
  omega

/-- Two calls are enough for a line. -/
theorem bytes_length : l.bytes.length ≤ 2 * (pathMax - 1) := by
  have haddresses := l.addresses_length
  have hfields := l.fields_length
  have hpath := l.path_le
  have hpadding : l.padding.length ≤ 73 := by
    unfold padding
    split
    · exact Nat.zero_le _
    · rw [List.length_replicate]
      omega
  simp only [bytes, text, List.length_append, List.length_cons, List.length_nil]
  unfold pathMax at *
  omega

/-- **A line** is cut off where the buffer ends; its region is read. -/
theorem memoryMapNext_line (rest : List Byte) :
    memoryMapNext (l.bytes ++ rest) = (some l.region, l.leftover ++ rest) := by
  have hne : l.bytes ++ rest ≠ [] := by simp [bytes]
  have hbytes : l.bytes ++ rest = l.text ++ newline :: rest := by simp [bytes]
  have hbuf : l.bytes.take (pathMax - 1) =
      l.addresses ++ ((l.fields ++ (l.padding ++ l.path)) ++ [newline]).take
        (pathMax - 1 - l.addresses.length) := by
    have haddresses := l.addresses_length
    rw [bytes, text, List.append_assoc, List.take_append, List.take_of_length_le]
    unfold pathMax
    omega
  rw [memoryMapNext, fgets, if_neg hne, hbytes, takeLine_line l.text_line]
  show (scanRegion (l.bytes.take (pathMax - 1)), _) = _
  rw [hbuf, scanRegion_addresses]
  rfl

/-- The rest of a line that does not fit is read like a line. -/
theorem memoryMapNext_leftover (hlong : ¬ l.Fits) (rest : List Byte) :
    memoryMapNext (l.leftover ++ rest) = (scanRegion l.leftover, rest) := by
  have hlen : pathMax - 1 ≤ l.text.length := by
    have hlt := Nat.lt_of_not_le hlong
    rw [bytes, List.length_append] at hlt
    exact Nat.le_of_lt_succ hlt
  have hleftover : l.leftover = l.text.drop (pathMax - 1) ++ [newline] := by
    rw [leftover, bytes, List.drop_append_of_le_length hlen]
  have hline : newline ∉ l.text.drop (pathMax - 1) :=
    fun h => l.text_line (List.mem_of_mem_drop h)
  have hshort : l.leftover.length ≤ pathMax - 1 := by
    have htwo := l.bytes_length
    rw [leftover, List.length_drop]
    omega
  have hne : l.leftover ++ rest ≠ [] := by simp [hleftover]
  have htake : takeLine (pathMax - 1) (l.leftover ++ rest) = (l.leftover, rest) := by
    rw [hleftover] at hshort ⊢
    rw [List.append_assoc, List.singleton_append, takeLine_line hline,
      List.take_of_length_le hshort, List.drop_eq_nil_of_le hshort, List.nil_append]
  rw [memoryMapNext, fgets, if_neg hne, htake]

theorem leftover_eq_nil (hfits : l.Fits) : l.leftover = [] :=
  List.drop_eq_nil_of_le hfits

end MapsLine

/-! ## The calls -/

theorem memoryMapCalls_fits {l : MapsLine} (hfits : l.Fits) (n : ℕ) (lines : List MapsLine) :
    memoryMapCalls (n + 1) (mapsFile (l :: lines)) =
      some l.region :: memoryMapCalls n (mapsFile lines) := by
  simp only [mapsFile, List.flatMap_cons, memoryMapCalls, l.memoryMapNext_line,
    l.leftover_eq_nil hfits, List.nil_append]

/-- A line that does not fit takes two calls. -/
theorem memoryMapCalls_long {l : MapsLine} (hlong : ¬ l.Fits) (n : ℕ) (lines : List MapsLine) :
    memoryMapCalls (n + 2) (mapsFile (l :: lines)) =
      some l.region :: scanRegion l.leftover :: memoryMapCalls n (mapsFile lines) := by
  simp only [mapsFile, List.flatMap_cons, memoryMapCalls, l.memoryMapNext_line,
    l.memoryMapNext_leftover hlong]

/-- The calls return the regions of the lines in order and then -1. -/
def ReturnsRegions (lines : List MapsLine) : Prop :=
  memoryMapCalls (lines.length + 1) (mapsFile lines) =
    lines.map (fun l => some l.region) ++ [none]

/-- Every line but the last fits, and what is left of the last one is not read as a region. -/
def ReadWhole (lines : List MapsLine) : Prop :=
  (∀ l ∈ lines.dropLast, l.Fits) ∧
    ∀ l, lines.getLast? = some l → l.Fits ∨ scanRegion l.leftover = none

/-- No line has the same region as the one before it; those of a process follow one another. -/
def NeighboursDiffer (lines : List MapsLine) : Prop :=
  lines.IsChain fun l l' => l.region ≠ l'.region

theorem returnsRegions_of_readWhole {lines : List MapsLine} (h : ReadWhole lines) :
    ReturnsRegions lines := by
  induction lines with
  | nil => rfl
  | cons l lines ih =>
    obtain ⟨hinit, hlast⟩ := h
    unfold ReturnsRegions
    cases lines with
    | nil =>
      rcases hlast l rfl with hfits | hleft
      · exact memoryMapCalls_fits hfits 1 []
      · by_cases hfits : l.Fits
        · exact memoryMapCalls_fits hfits 1 []
        · show memoryMapCalls 2 _ = _
          rw [memoryMapCalls_long hfits, hleft]
          rfl
    | cons l' lines =>
      have hfits : l.Fits := hinit l List.mem_cons_self
      have hrest : ReadWhole (l' :: lines) := by
        refine ⟨fun x hx => hinit x (List.mem_cons_of_mem l hx), ?_⟩
        intro x hx
        exact hlast x (by rw [List.getLast?_cons_cons]; exact hx)
      rw [List.length_cons, memoryMapCalls_fits hfits, ih hrest]
      rfl

theorem readWhole_of_returnsRegions {lines : List MapsLine} (hdiffer : NeighboursDiffer lines)
    (h : ReturnsRegions lines) : ReadWhole lines := by
  induction lines with
  | nil => exact ⟨fun l hl => (by cases hl), fun l hl => (by cases hl)⟩
  | cons l lines ih =>
    unfold ReturnsRegions at h
    by_cases hfits : l.Fits
    · rw [List.length_cons, memoryMapCalls_fits hfits] at h
      obtain ⟨hinit, hlast⟩ := ih hdiffer.tail (List.cons.inj h).2
      cases lines with
      | nil =>
        refine ⟨fun x hx => (by cases hx), ?_⟩
        intro x hx
        cases hx
        exact Or.inl hfits
      | cons l' lines =>
        refine ⟨?_, ?_⟩
        · intro x hx
          rw [List.dropLast_cons_cons] at hx
          rcases List.mem_cons.mp hx with rfl | hx
          · exact hfits
          · exact hinit x hx
        · intro x hx
          rw [List.getLast?_cons_cons] at hx
          exact hlast x hx
    · rw [List.length_cons, memoryMapCalls_long hfits] at h
      have htail := (List.cons.inj h).2
      cases lines with
      | nil =>
        refine ⟨fun x hx => (by cases hx), ?_⟩
        intro x hx
        cases hx
        exact Or.inr (List.cons.inj htail).1
      | cons l' lines =>
        -- the region of the next line is returned one call too late
        exfalso
        have hlate := (List.cons.inj htail).2
        rw [List.length_cons, memoryMapCalls, mapsFile, List.flatMap_cons,
          l'.memoryMapNext_line] at hlate
        cases lines with
        | nil => cases (List.cons.inj hlate).1
        | cons l'' lines =>
          have hne := (List.isChain_cons_cons.mp (List.isChain_cons_cons.mp hdiffer).2).1
          exact hne (Option.some.inj (List.cons.inj hlate).1)

/-- **The reader of the process map** returns every region in files whose lines before the last one
fit into the buffer, and whose last one fits or leaves nothing behind that looks like a region. In
files that list no region twice in a row it does so in no others. -/
theorem returnsRegions_iff (lines : List MapsLine) :
    (ReadWhole lines → ReturnsRegions lines) ∧
      (NeighboursDiffer lines → (ReturnsRegions lines ↔ ReadWhole lines)) := by
  constructor
  · exact returnsRegions_of_readWhole
  · intro hdiffer
    exact ⟨readWhole_of_returnsRegions hdiffer, returnsRegions_of_readWhole⟩

/-- A library whose path name has `PATH_MAX` bytes. -/
def sampleLongLine : MapsLine where
  region := ⟨0x7f0000000000, 0x7f0000001000⟩
  read := true
  write := false
  exec := true
  shared := false
  offset := 0
  major := 8
  minor := 1
  inode := 1234
  path := List.replicate pathMax 0x61
  path_le := by rw [List.length_replicate]
  path_line := fun h => absurd (List.eq_of_mem_replicate h) (by decide)

/-- The code of the program. -/
def sampleTextLine : MapsLine where
  region := ⟨0x400000, 0x404000⟩
  read := true
  write := false
  exec := true
  shared := false
  offset := 0
  major := 8
  minor := 1
  inode := 5678
  path := [0x2f, 0x62, 0x69, 0x6e, 0x2f, 0x6c, 0x73]   -- /bin/ls
  path_le := by decide
  path_line := by decide

/-- Data behind it that no file is mapped to. -/
def sampleDataLine : MapsLine :=
  { sampleTextLine with
    region := ⟨0x404000, 0x425000⟩
    write := true
    exec := false
    major := 0
    minor := 0
    inode := 0
    path := []
    path_le := by decide
    path_line := by decide }

/-- The stack of the process. -/
def sampleStackLine : MapsLine where
  region := ⟨0x7ffc00000000, 0x7ffc00021000⟩
  read := true
  write := true
  exec := false
  shared := false
  offset := 0
  major := 0
  minor := 0
  inode := 0
  path := [0x5b, 0x73, 0x74, 0x61, 0x63, 0x6b, 0x5d]
  path_le := by decide
  path_line := by decide

theorem sampleLongLine_not_fits : ¬ sampleLongLine.Fits := by
  intro h
  have hpath : sampleLongLine.path.length = pathMax := List.length_replicate
  unfold MapsLine.Fits at h
  simp only [MapsLine.bytes, MapsLine.text, List.length_append, hpath] at h
  unfold pathMax at h
  omega

/-- The stack behind the library is not returned. -/
theorem regions_dropped : ¬ ∀ lines, ReturnsRegions lines := by
  intro h
  have hdiffer : NeighboursDiffer [sampleLongLine, sampleStackLine] :=
    .cons_cons (by decide) (.singleton _)
  have hwhole := readWhole_of_returnsRegions hdiffer (h _)
  exact sampleLongLine_not_fits (hwhole.1 sampleLongLine List.mem_cons_self)

theorem returnsRegions_program :
    ReturnsRegions [sampleTextLine, sampleDataLine, sampleStackLine] ∧
      ReturnsRegions [sampleTextLine, sampleLongLine] := by
  have hshort : ∀ l ∈ [sampleTextLine, sampleDataLine, sampleStackLine], l.Fits := by
    intro l hl
    have hall : [sampleTextLine, sampleDataLine, sampleStackLine].all fun l =>
      decide (l.bytes.length ≤ pathMax - 1) := by decide +kernel
    show l.bytes.length ≤ pathMax - 1
    exact of_decide_eq_true (List.all_eq_true.mp hall l hl)
  constructor
  · refine (returnsRegions_iff _).1 ⟨fun l hl => hshort l (List.mem_of_mem_dropLast hl), ?_⟩
    exact fun l hl => Or.inl (hshort l (List.mem_of_getLast? hl))
  · refine (returnsRegions_iff _).1 ⟨fun l hl => ?_, fun l hl => Or.inr ?_⟩
    · rw [List.mem_singleton.mp hl]
      exact hshort _ List.mem_cons_self
    · -- what is left of the path name is read as a number without a '-' behind it
      obtain rfl : sampleLongLine = l := Option.some.inj hl
      decide +kernel

/-! ## The regions that `get_free_address` walks over -/

/-- The regions returned before the first -1. -/
def readMap (file : List Byte) : List Region :=
  ((memoryMapCalls (file.length + 1) file).takeWhile Option.isSome).filterMap id

theorem memoryMapCalls_add (n k : ℕ) (file : List Byte) :
    ∃ rest, memoryMapCalls (n + k) file = memoryMapCalls n file ++ rest := by
  induction n generalizing file with
  | zero => exact ⟨_, rfl⟩
  | succ n ih =>
    obtain ⟨rest, hrest⟩ := ih (memoryMapNext file).2
    refine ⟨rest, ?_⟩
    rw [Nat.succ_add, memoryMapCalls, hrest]
    rfl

theorem mapsFile_length (lines : List MapsLine) : lines.length ≤ (mapsFile lines).length := by
  induction lines with
  | nil => exact Nat.le_refl 0
  | cons l lines ih =>
    have hbytes : 0 < l.bytes.length := by simp [MapsLine.bytes]
    rw [mapsFile, List.flatMap_cons, List.length_append, List.length_cons]
    have hrest : lines.length ≤ (lines.flatMap MapsLine.bytes).length := ih
    omega

/-- **The map of a process** whose lines are read whole is the list of its regions. -/
theorem readMap_mapsFile {lines : List MapsLine} (h : ReadWhole lines) :
    readMap (mapsFile lines) = lines.map MapsLine.region := by
  have hlength := mapsFile_length lines
  obtain ⟨rest, hrest⟩ := memoryMapCalls_add (lines.length + 1)
    ((mapsFile lines).length - lines.length) (mapsFile lines)
  have hcalls : memoryMapCalls ((mapsFile lines).length + 1) (mapsFile lines) =
      lines.map (fun l => some l.region) ++ none :: rest := by
    rw [show (mapsFile lines).length + 1 =
      lines.length + 1 + ((mapsFile lines).length - lines.length) by omega, hrest,
      returnsRegions_of_readWhole h, List.append_assoc]
    rfl
  have hwhile : (lines.map (fun l => some l.region) ++ none :: rest).takeWhile Option.isSome =
      lines.map fun l => some l.region := by
    rw [List.takeWhile_append_of_pos]
    · simp
    · intro r hr
      obtain ⟨l, -, rfl⟩ := List.mem_map.mp hr
      rfl
  rw [readMap, hcalls, hwhile, List.filterMap_map]
  exact congrFun List.filterMap_eq_map lines

/-- `get_free_address` with the content of the file, or the failure of `memory_map_open`. -/
def getFreeAddressOfFile (pageSize : Addr 64) (file : Except Failure (List Byte))
    (funcAddr : Addr 64) : Except Failure Candidates :=
  getFreeAddress pageSize (file.map readMap) funcAddr

theorem getFreeAddressOfFile_mapsFile (pageSize : Addr 64) {lines : List MapsLine}
    (h : ReadWhole lines) (funcAddr : Addr 64) :
    getFreeAddressOfFile pageSize (.ok (mapsFile lines)) funcAddr =
      getFreeAddress pageSize (.ok (lines.map MapsLine.region)) funcAddr := by
  rw [getFreeAddressOfFile, Except.map, readMap_mapsFile h]

end Funchook.Unix
