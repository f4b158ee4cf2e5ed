import Mathlib.Data.List.Basic
import Mathlib.Tactic.SplitIfs
import Funchook.Lib.ByteMemory

/-!
# A subset of the A64 instruction set

The instructions that read the program counter, those that reach the same targets through a
register, and the state they act on. `Instr.encode` puts the fields of an instruction into a word
and `decode` reads them back. `Instr.effect` follows the pseudocode of the architecture, with the
address of the instruction and of the one that follows it as arguments, so that an instruction
can be run as if it stood elsewhere. Prefetches have no effect on registers or memory; the state
keeps a record of them.
-/

namespace A64

open ByteMemory

abbrev Word := BitVec 32

abbrev Reg := BitVec 5

/-! ## State -/

/-- General registers `x0` to `x30` (the entry 31 is not a register), stack pointer, vector
registers, the flags `N`, `Z`, `C`, `V`, memory, program counter and the prefetches made, each
with its operation and address. -/
structure State where
  x : Reg → BitVec 64
  sp : BitVec 64
  v : Reg → BitVec 128
  n : Bool
  z : Bool
  c : Bool
  o : Bool
  mem : Mem 64
  pc : BitVec 64
  prefetches : List (Reg × BitVec 64)

namespace State

/-- A machine with zero registers. -/
def initial (mem : Mem 64) (pc : BitVec 64) : State where
  x := fun _ => 0
  sp := 0
  v := fun _ => 0
  n := false
  z := false
  c := false
  o := false
  mem := mem
  pc := pc
  prefetches := []

@[simp] theorem initial_mem (mem : Mem 64) (pc : BitVec 64) : (initial mem pc).mem = mem := rfl

/-- `X[r]`, where 31 reads as zero. -/
def readX (s : State) (r : Reg) : BitVec 64 := if r = 31 then 0 else s.x r

/-- `X[r] = value`, where 31 discards the value. -/
def writeX (s : State) (r : Reg) (value : BitVec 64) : State :=
  if r = 31 then s else { s with x := fun q => if q = r then value else s.x q }

/-- A base register, where 31 is the stack pointer. -/
def readBase (s : State) (r : Reg) : BitVec 64 := if r = 31 then s.sp else s.x r

def writeV (s : State) (r : Reg) (value : BitVec 128) : State :=
  { s with v := fun q => if q = r then value else s.v q }

def withPc (s : State) (pc : BitVec 64) : State := { s with pc := pc }

def advance (s : State) : State := { s with pc := s.pc + 4 }

@[simp] theorem withPc_pc (s : State) (pc : BitVec 64) : (s.withPc pc).pc = pc := rfl
@[simp] theorem withPc_mem (s : State) (pc : BitVec 64) : (s.withPc pc).mem = s.mem := rfl
@[simp] theorem withPc_withPc (s : State) (pc pc' : BitVec 64) :
    (s.withPc pc).withPc pc' = s.withPc pc' := rfl
@[simp] theorem withPc_readX (s : State) (pc : BitVec 64) (r : Reg) :
    (s.withPc pc).readX r = s.readX r := rfl
@[simp] theorem withPc_readBase (s : State) (pc : BitVec 64) (r : Reg) :
    (s.withPc pc).readBase r = s.readBase r := rfl

theorem writeX_mem (s : State) (r : Reg) (value : BitVec 64) :
    (s.writeX r value).mem = s.mem := by
  unfold writeX
  split <;> rfl

theorem readX_writeX_self (s : State) {r : Reg} (value : BitVec 64) (hr : r ≠ 31) :
    (s.writeX r value).readX r = value := by
  rw [writeX, if_neg hr, readX, if_neg hr]
  exact if_pos rfl

theorem readBase_writeX_self (s : State) {r : Reg} (value : BitVec 64) (hr : r ≠ 31) :
    (s.writeX r value).readBase r = value := by
  rw [writeX, if_neg hr, readBase, if_neg hr]
  exact if_pos rfl

end State

/-- `ConditionHolds`: the condition in the upper three bits, inverted when the lowest bit is set,
except that 15 holds always, as 14 does. -/
def conditionHolds (s : State) (cond : BitVec 4) : Bool :=
  let base :=
    match cond.extractLsb' 1 3 with
    | 0 => s.z
    | 1 => s.c
    | 2 => s.n
    | 3 => s.o
    | 4 => s.c && !s.z
    | 5 => s.n == s.o
    | 6 => (s.n == s.o) && !s.z
    | _ => true
  if cond.getLsbD 0 && cond != 15 then !base else base

/-! ## Instructions -/

/-- What a load of one register reads and where it puts it; `prfm` only prefetches. -/
inductive LoadKind where
  | w | x | sw | prfm | s | d | q
  deriving DecidableEq, Repr

inductive Instr where
  | adr (rd : Reg) (imm : BitVec 21)
  | adrp (rd : Reg) (imm : BitVec 21)
  | b (imm : BitVec 26)
  | bl (imm : BitVec 26)
  | bcond (cond : BitVec 4) (imm : BitVec 19)
  /-- `CBZ`, or `CBNZ` when `nonzero`; 32-bit unless `sf` -/
  | cbz (sf nonzero : Bool) (rt : Reg) (imm : BitVec 19)
  /-- `TBZ`, or `TBNZ` when `nonzero` -/
  | tbz (nonzero : Bool) (pos : BitVec 6) (rt : Reg) (imm : BitVec 14)
  | ldrLit (kind : LoadKind) (rt : Reg) (imm : BitVec 19)
  /-- a load from the address in a base register, without offset -/
  | ldrReg (kind : LoadKind) (rt rn : Reg)
  | br (rn : Reg)
  | blr (rn : Reg)
  deriving DecidableEq, Repr

/-- The general register a load writes, if it writes one. -/
def LoadKind.destination (rt : Reg) : LoadKind → List Reg
  | .w => [rt]
  | .x => [rt]
  | .sw => [rt]
  | .prfm => []
  | .s => []
  | .d => []
  | .q => []

/-- `opc` and `V` of the literal form. -/
def LoadKind.literal : LoadKind → BitVec 2 × BitVec 1
  | .w => (0, 0)
  | .x => (1, 0)
  | .sw => (2, 0)
  | .prfm => (3, 0)
  | .s => (0, 1)
  | .d => (1, 1)
  | .q => (2, 1)

/-- `size`, `V` and `opc` of the form with an unsigned offset. -/
def LoadKind.register : LoadKind → BitVec 2 × BitVec 1 × BitVec 2
  | .w => (2, 0, 1)
  | .x => (3, 0, 1)
  | .sw => (2, 0, 2)
  | .prfm => (3, 0, 2)
  | .s => (2, 1, 1)
  | .d => (3, 1, 1)
  | .q => (0, 1, 3)

def bit (b : Bool) : BitVec 1 := BitVec.ofBool b

/-- The word with `x` at bit `lsb` and zero elsewhere. -/
def field {n : ℕ} (lsb : ℕ) (x : BitVec n) : Word := x.setWidth 32 <<< lsb

/-- The word of an instruction: the fixed bits, then the fields from the highest to the lowest. -/
def Instr.encode : Instr → Word
  | .adr rd imm =>
    0x10000000 ||| field 29 (imm.extractLsb' 0 2) ||| field 5 (imm.extractLsb' 2 19) ||| field 0 rd
  | .adrp rd imm =>
    0x90000000 ||| field 29 (imm.extractLsb' 0 2) ||| field 5 (imm.extractLsb' 2 19) ||| field 0 rd
  | .b imm => 0x14000000 ||| field 0 imm
  | .bl imm => 0x94000000 ||| field 0 imm
  | .bcond cond imm => 0x54000000 ||| field 5 imm ||| field 0 cond
  | .cbz sf nonzero rt imm =>
    0x34000000 ||| field 31 (bit sf) ||| field 24 (bit nonzero) ||| field 5 imm ||| field 0 rt
  | .tbz nonzero pos rt imm =>
    0x36000000 ||| field 31 (pos.extractLsb' 5 1) ||| field 24 (bit nonzero) |||
      field 19 (pos.extractLsb' 0 5) ||| field 5 imm ||| field 0 rt
  | .ldrLit kind rt imm =>
    0x18000000 ||| field 30 kind.literal.1 ||| field 26 kind.literal.2 ||| field 5 imm |||
      field 0 rt
  | .ldrReg kind rt rn =>
    0x39000000 ||| field 30 kind.register.1 ||| field 26 kind.register.2.1 |||
      field 22 kind.register.2.2 ||| field 5 rn ||| field 0 rt
  | .br rn => 0xd61f0000 ||| field 5 rn
  | .blr rn => 0xd63f0000 ||| field 5 rn

def LoadKind.ofLiteral : BitVec 2 → BitVec 1 → Option LoadKind
  | 0, 0 => some .w
  | 1, 0 => some .x
  | 2, 0 => some .sw
  | 3, 0 => some .prfm
  | 0, 1 => some .s
  | 1, 1 => some .d
  | 2, 1 => some .q
  | _, _ => none

def LoadKind.ofRegister : BitVec 2 → BitVec 1 → BitVec 2 → Option LoadKind
  | 2, 0, 1 => some .w
  | 3, 0, 1 => some .x
  | 2, 0, 2 => some .sw
  | 3, 0, 2 => some .prfm
  | 2, 1, 1 => some .s
  | 3, 1, 1 => some .d
  | 0, 1, 3 => some .q
  | _, _, _ => none

/-- The instruction of a word, for the instructions of this subset. -/
def decode (i : Word) : Option Instr :=
  let rt := i.extractLsb' 0 5
  let imm19 := i.extractLsb' 5 19
  let high := i.extractLsb' 31 1
  let low2 := i.extractLsb' 24 2
  if i.extractLsb' 26 3 = 0b100#3 then
    if low2 = 0#2 then
      let imm := imm19 ++ i.extractLsb' 29 2
      some (if high = 0#1 then .adr rt imm else .adrp rt imm)
    else none
  else if i.extractLsb' 26 3 = 0b101#3 then
    if i.extractLsb' 29 2 = 0#2 then
      let imm := i.extractLsb' 0 26
      some (if high = 0#1 then .b imm else .bl imm)
    else if i.extractLsb' 29 2 = 1#2 then
      let nonzero := decide (i.extractLsb' 24 1 = 1#1)
      if i.extractLsb' 25 1 = 0#1 then some (.cbz (decide (high = 1#1)) nonzero rt imm19)
      else some (.tbz nonzero (high ++ i.extractLsb' 19 5) rt (i.extractLsb' 5 14))
    else if i.extractLsb' 29 2 = 2#2 then
      if high = 0#1 then
        if low2 = 0#2 ∧ i.extractLsb' 4 1 = 0#1 then some (.bcond (i.extractLsb' 0 4) imm19)
        else none
      else if low2 = 2#2 ∧ i.extractLsb' 16 5 = 0b11111#5 ∧ i.extractLsb' 10 6 = 0#6 ∧ rt = 0#5 then
        if i.extractLsb' 21 3 = 0#3 then some (.br (i.extractLsb' 5 5))
        else if i.extractLsb' 21 3 = 1#3 then some (.blr (i.extractLsb' 5 5))
        else none
      else none
    else none
  else if i.extractLsb' 27 2 = 3#2 then
    if i.extractLsb' 29 1 = 0#1 then
      if low2 = 0#2 then
        (LoadKind.ofLiteral (i.extractLsb' 30 2) (i.extractLsb' 26 1)).map fun kind =>
          .ldrLit kind rt imm19
      else none
    else if low2 = 1#2 ∧ i.extractLsb' 10 12 = 0#12 then
      (LoadKind.ofRegister (i.extractLsb' 30 2) (i.extractLsb' 26 1) (i.extractLsb' 22 2)).map
        fun kind => .ldrReg kind rt (i.extractLsb' 5 5)
    else none
  else none

/-! ## Fields of words -/

@[simp] theorem extract_field_self {n lsb : ℕ} (x : BitVec n) (h : lsb + n ≤ 32) :
    (field lsb x).extractLsb' lsb n = x := by
  ext i hi
  have hlt : lsb + i < 32 := by omega
  have hsub : lsb + i - lsb = i := by omega
  simp [field, hlt, hsub, BitVec.getLsbD_eq_getElem hi]

/-- The bits below a field are zero. -/
@[simp] theorem extract_field_below {n lsb start len : ℕ} (x : BitVec n) (h : start + len ≤ lsb) :
    (field lsb x).extractLsb' start len = 0 := by
  ext i hi
  simp [field, show start + i < lsb by omega]

/-- The bits above a field are zero. -/
@[simp] theorem extract_field_above {n lsb start len : ℕ} (x : BitVec n) (h : lsb + n ≤ start) :
    (field lsb x).extractLsb' start len = 0 := by
  ext i hi
  have hout : n ≤ start + i - lsb := by omega
  simp [field, BitVec.getLsbD_of_ge x _ hout]

theorem LoadKind.ofLiteral_literal (kind : LoadKind) :
    LoadKind.ofLiteral kind.literal.1 kind.literal.2 = some kind := by
  cases kind <;> rfl

theorem LoadKind.ofRegister_register (kind : LoadKind) :
    LoadKind.ofRegister kind.register.1 kind.register.2.1 kind.register.2.2 = some kind := by
  cases kind <;> rfl

@[simp] theorem bit_eq_one (b : Bool) : bit b = 1#1 ↔ b = true := by
  cases b <;> decide

/-- Bits 28 to 26 of a load, whichever register file it uses, are not those of the other groups. -/
theorem load_group (v : BitVec 1) :
    6#3 ||| (field 26 v).extractLsb' 26 3 ≠ 4#3 ∧ 6#3 ||| (field 26 v).extractLsb' 26 3 ≠ 5#3 := by
  revert v
  decide

/-- **Decoding reads back every encoded instruction.** -/
theorem decode_encode (i : Instr) : decode i.encode = some i := by
  cases i with
  | adr rd imm =>
    have himm : imm.extractLsb' 2 19 ++ imm.extractLsb' 0 2 = imm :=
      @BitVec.extractLsb'_append_extractLsb' 19 2 imm
    simp [decode, Instr.encode, BitVec.extractLsb'_or, himm]
  | adrp rd imm =>
    have himm : imm.extractLsb' 2 19 ++ imm.extractLsb' 0 2 = imm :=
      @BitVec.extractLsb'_append_extractLsb' 19 2 imm
    simp [decode, Instr.encode, BitVec.extractLsb'_or, himm]
  | b imm => simp [decode, Instr.encode, BitVec.extractLsb'_or]
  | bl imm => simp [decode, Instr.encode, BitVec.extractLsb'_or]
  | bcond cond imm => simp [decode, Instr.encode, BitVec.extractLsb'_or]
  | cbz sf nonzero rt imm => simp [decode, Instr.encode, BitVec.extractLsb'_or]
  | tbz nonzero pos rt imm =>
    have hpos : pos.extractLsb' 5 1 ++ pos.extractLsb' 0 5 = pos :=
      @BitVec.extractLsb'_append_extractLsb' 1 5 pos
    simp [decode, Instr.encode, BitVec.extractLsb'_or, hpos]
  | ldrLit kind rt imm =>
    have hgroup := load_group kind.literal.2
    simp [decode, Instr.encode, BitVec.extractLsb'_or, hgroup.1, hgroup.2,
      LoadKind.ofLiteral_literal]
  | ldrReg kind rt rn =>
    have hgroup := load_group kind.register.2.1
    simp [decode, Instr.encode, BitVec.extractLsb'_or, hgroup.1, hgroup.2,
      LoadKind.ofRegister_register]
  | br rn => simp [decode, Instr.encode, BitVec.extractLsb'_or]
  | blr rn => simp [decode, Instr.encode, BitVec.extractLsb'_or]

/-! ## Fields of decoded words -/

theorem eq_bit_iff (x : BitVec 1) (b : Bool) : x = bit b ↔ decide (x = 1#1) = b := by
  revert x b
  decide

theorem bit_ne_zero (x : BitVec 1) : ¬ x = 0#1 ↔ x = 1#1 := by
  revert x
  decide

theorem ofLiteral_some {opc : BitVec 2} {v : BitVec 1} {kind : LoadKind}
    (h : LoadKind.ofLiteral opc v = some kind) : opc = kind.literal.1 ∧ v = kind.literal.2 := by
  revert opc v kind
  decide +kernel

/-- What the fields of a decoded word are. -/
inductive Decoded (w : Word) : Instr → Prop where
  | adr : Decoded w (.adr (w.extractLsb' 0 5) (w.extractLsb' 5 19 ++ w.extractLsb' 29 2))
  | adrp : Decoded w (.adrp (w.extractLsb' 0 5) (w.extractLsb' 5 19 ++ w.extractLsb' 29 2))
  | b (hhigh : w.extractLsb' 31 1 = 0#1) : Decoded w (.b (w.extractLsb' 0 26))
  | bl (hhigh : w.extractLsb' 31 1 = 1#1) : Decoded w (.bl (w.extractLsb' 0 26))
  | cbz (hgroup : w.extractLsb' 26 3 = 5#3) (hop : w.extractLsb' 29 2 = 1#2)
      (htest : w.extractLsb' 25 1 = 0#1) :
      Decoded w (.cbz (decide (w.extractLsb' 31 1 = 1#1)) (decide (w.extractLsb' 24 1 = 1#1))
        (w.extractLsb' 0 5) (w.extractLsb' 5 19))
  | tbz (hgroup : w.extractLsb' 26 3 = 5#3) (hop : w.extractLsb' 29 2 = 1#2)
      (htest : w.extractLsb' 25 1 = 1#1) :
      Decoded w (.tbz (decide (w.extractLsb' 24 1 = 1#1))
        (w.extractLsb' 31 1 ++ w.extractLsb' 19 5) (w.extractLsb' 0 5) (w.extractLsb' 5 14))
  | bcond (hgroup : w.extractLsb' 26 3 = 5#3) (hop : w.extractLsb' 29 2 = 2#2)
      (hhigh : w.extractLsb' 31 1 = 0#1) (hlow : w.extractLsb' 24 2 = 0#2)
      (hbit : w.extractLsb' 4 1 = 0#1) :
      Decoded w (.bcond (w.extractLsb' 0 4) (w.extractLsb' 5 19))
  | br : Decoded w (.br (w.extractLsb' 5 5))
  | blr : Decoded w (.blr (w.extractLsb' 5 5))
  | ldrLit {kind : LoadKind} (hgroup : w.extractLsb' 27 2 = 3#2) (hbit : w.extractLsb' 29 1 = 0#1)
      (hlow : w.extractLsb' 24 2 = 0#2)
      (hkind : LoadKind.ofLiteral (w.extractLsb' 30 2) (w.extractLsb' 26 1) = some kind) :
      Decoded w (.ldrLit kind (w.extractLsb' 0 5) (w.extractLsb' 5 19))
  | ldrReg {kind : LoadKind} (hbit : w.extractLsb' 29 1 = 1#1) :
      Decoded w (.ldrReg kind (w.extractLsb' 0 5) (w.extractLsb' 5 5))

/-- **What a word decodes to**, with what its fields are then. -/
theorem decode_cases {w : Word} {i : Instr} (h : decode w = some i) : Decoded w i := by
  unfold decode at h
  dsimp only at h
  split at h
  · split at h
    · obtain rfl := Option.some.inj h
      split
      · exact .adr
      · exact .adrp
    · cases h
  · split at h
    · rename_i hgroup
      split at h
      · obtain rfl := Option.some.inj h
        split
        · rename_i hhigh
          exact .b hhigh
        · rename_i hhigh
          exact .bl ((bit_ne_zero _).mp hhigh)
      · split at h
        · rename_i hop
          split at h
          · rename_i htest
            obtain rfl := Option.some.inj h
            exact .cbz hgroup hop htest
          · rename_i htest
            obtain rfl := Option.some.inj h
            exact .tbz hgroup hop ((bit_ne_zero _).mp htest)
        · split at h
          · rename_i hop
            split at h
            · rename_i hhigh
              split at h
              · rename_i hrest
                obtain rfl := Option.some.inj h
                exact .bcond hgroup hop hhigh hrest.1 hrest.2
              · cases h
            · split at h
              · split at h
                · obtain rfl := Option.some.inj h
                  exact .br
                · split at h
                  · obtain rfl := Option.some.inj h
                    exact .blr
                  · cases h
              · cases h
          · cases h
    · split at h
      · rename_i hgroup
        split at h
        · rename_i hbit
          split at h
          · rename_i hlow
            obtain ⟨kind, hkind, rfl⟩ := Option.map_eq_some_iff.mp h
            exact .ldrLit hgroup hbit hlow hkind
          · cases h
        · rename_i hbit
          split at h
          · obtain ⟨kind, -, rfl⟩ := Option.map_eq_some_iff.mp h
            exact .ldrReg ((bit_ne_zero _).mp hbit)
          · cases h
      · cases h
theorem decode_adr {w : Word} {rd : Reg} {imm : BitVec 21} (h : decode w = some (.adr rd imm)) :
    w.extractLsb' 0 5 = rd ∧ w.extractLsb' 5 19 ++ w.extractLsb' 29 2 = imm := by
  cases decode_cases h
  exact ⟨rfl, rfl⟩

theorem decode_adrp {w : Word} {rd : Reg} {imm : BitVec 21} (h : decode w = some (.adrp rd imm)) :
    w.extractLsb' 0 5 = rd ∧ w.extractLsb' 5 19 ++ w.extractLsb' 29 2 = imm := by
  cases decode_cases h
  exact ⟨rfl, rfl⟩

theorem decode_b {w : Word} {imm : BitVec 26} (h : decode w = some (.b imm)) :
    w.extractLsb' 31 1 = 0#1 ∧ w.extractLsb' 0 26 = imm := by
  cases decode_cases h with
  | b hhigh => exact ⟨hhigh, rfl⟩

theorem decode_bl {w : Word} {imm : BitVec 26} (h : decode w = some (.bl imm)) :
    w.extractLsb' 31 1 = 1#1 ∧ w.extractLsb' 0 26 = imm := by
  cases decode_cases h with
  | bl hhigh => exact ⟨hhigh, rfl⟩

theorem decode_bcond {w : Word} {cond : BitVec 4} {imm : BitVec 19}
    (h : decode w = some (.bcond cond imm)) :
    w.extractLsb' 26 3 = 5#3 ∧ w.extractLsb' 29 2 = 2#2 ∧ w.extractLsb' 31 1 = 0#1 ∧
      w.extractLsb' 24 2 = 0#2 ∧ w.extractLsb' 4 1 = 0#1 ∧ w.extractLsb' 0 4 = cond ∧
      w.extractLsb' 5 19 = imm := by
  cases decode_cases h with
  | bcond hgroup hop hhigh hlow hbit => exact ⟨hgroup, hop, hhigh, hlow, hbit, rfl, rfl⟩

theorem decode_cbz {w : Word} {sf nonzero : Bool} {rt : Reg} {imm : BitVec 19}
    (h : decode w = some (.cbz sf nonzero rt imm)) :
    w.extractLsb' 26 3 = 5#3 ∧ w.extractLsb' 29 2 = 1#2 ∧ w.extractLsb' 25 1 = 0#1 ∧
      w.extractLsb' 31 1 = bit sf ∧ w.extractLsb' 24 1 = bit nonzero ∧ w.extractLsb' 0 5 = rt ∧
      w.extractLsb' 5 19 = imm := by
  cases decode_cases h with
  | cbz hgroup hop htest =>
    exact ⟨hgroup, hop, htest, (eq_bit_iff _ _).mpr rfl, (eq_bit_iff _ _).mpr rfl, rfl, rfl⟩

theorem decode_tbz {w : Word} {nonzero : Bool} {pos : BitVec 6} {rt : Reg} {imm : BitVec 14}
    (h : decode w = some (.tbz nonzero pos rt imm)) :
    w.extractLsb' 26 3 = 5#3 ∧ w.extractLsb' 29 2 = 1#2 ∧ w.extractLsb' 25 1 = 1#1 ∧
      w.extractLsb' 31 1 ++ w.extractLsb' 19 5 = pos ∧ w.extractLsb' 24 1 = bit nonzero ∧
      w.extractLsb' 0 5 = rt ∧ w.extractLsb' 5 14 = imm := by
  cases decode_cases h with
  | tbz hgroup hop htest =>
    exact ⟨hgroup, hop, htest, rfl, (eq_bit_iff _ _).mpr rfl, rfl, rfl⟩

theorem decode_ldrLit {w : Word} {kind : LoadKind} {rt : Reg} {imm : BitVec 19}
    (h : decode w = some (.ldrLit kind rt imm)) :
    w.extractLsb' 27 2 = 3#2 ∧ w.extractLsb' 29 1 = 0#1 ∧ w.extractLsb' 24 2 = 0#2 ∧
      w.extractLsb' 30 2 = kind.literal.1 ∧ w.extractLsb' 26 1 = kind.literal.2 ∧
      w.extractLsb' 0 5 = rt ∧ w.extractLsb' 5 19 = imm := by
  cases decode_cases h with
  | ldrLit hgroup hbit hlow hkind =>
    obtain ⟨hopc, hv⟩ := ofLiteral_some hkind
    exact ⟨hgroup, hbit, hlow, hopc, hv, rfl, rfl⟩

theorem decode_ldrReg {w : Word} {kind : LoadKind} {rt rn : Reg}
    (h : decode w = some (.ldrReg kind rt rn)) : w.extractLsb' 29 1 = 1#1 := by
  cases decode_cases h with
  | ldrReg hbit => exact hbit

/-! ## Execution -/

/-- The byte offset that a count of instruction words stands for. -/
def wordOffset {n : ℕ} (imm : BitVec n) : BitVec 64 := imm.signExtend 64 <<< 2

def load (kind : LoadKind) (rt : Reg) (addr : BitVec 64) (s : State) : State :=
  match kind with
  | .w => s.writeX rt ((readWord 4 s.mem addr : BitVec 32).setWidth 64)
  | .x => s.writeX rt (readWord 8 s.mem addr)
  | .sw => s.writeX rt ((readWord 4 s.mem addr : BitVec 32).signExtend 64)
  | .prfm => { s with prefetches := (rt, addr) :: s.prefetches }
  | .s => s.writeV rt ((readWord 4 s.mem addr : BitVec 32).setWidth 128)
  | .d => s.writeV rt ((readWord 8 s.mem addr : BitVec 64).setWidth 128)
  | .q => s.writeV rt (readWord 16 s.mem addr)

/-- Whether a conditional branch is taken; the other instructions have no condition. -/
def Instr.taken (s : State) : Instr → Bool
  | .bcond cond _ => conditionHolds s cond
  | .cbz sf nonzero rt _ =>
    (if sf then s.readX rt == 0 else (s.readX rt).setWidth 32 == (0 : BitVec 32)) != nonzero
  | .tbz nonzero pos rt _ => (s.readX rt).getLsbD pos.toNat == nonzero
  | _ => true

/-- What an instruction at `pc` does, when `next` is the address of the one that follows it. -/
def Instr.effect (pc next : BitVec 64) (s : State) (i : Instr) : State :=
  match i with
  | .adr rd imm => (s.writeX rd (pc + imm.signExtend 64)).withPc next
  | .adrp rd imm =>
    (s.writeX rd ((pc &&& ~~~(0xfff : BitVec 64)) + imm.signExtend 64 <<< 12)).withPc next
  | .b imm => s.withPc (pc + wordOffset imm)
  | .bl imm => (s.writeX 30 next).withPc (pc + wordOffset imm)
  | .bcond _ imm => s.withPc (if i.taken s then pc + wordOffset imm else next)
  | .cbz _ _ _ imm => s.withPc (if i.taken s then pc + wordOffset imm else next)
  | .tbz _ _ _ imm => s.withPc (if i.taken s then pc + wordOffset imm else next)
  | .ldrLit kind rt imm => (load kind rt (pc + wordOffset imm) s).withPc next
  | .ldrReg kind rt rn => (load kind rt (s.readBase rn) s).withPc next
  | .br rn => s.withPc (s.readX rn)
  | .blr rn => (s.writeX 30 next).withPc (s.readX rn)

/-- The address that an instruction at `pc` computes from `pc` and its immediate. -/
def Instr.pcTarget (pc : BitVec 64) : Instr → Option (BitVec 64)
  | .adr _ imm => some (pc + imm.signExtend 64)
  | .adrp _ imm => some ((pc &&& ~~~(0xfff : BitVec 64)) + imm.signExtend 64 <<< 12)
  | .b imm => some (pc + wordOffset imm)
  | .bl imm => some (pc + wordOffset imm)
  | .bcond _ imm => some (pc + wordOffset imm)
  | .cbz _ _ _ imm => some (pc + wordOffset imm)
  | .tbz _ _ _ imm => some (pc + wordOffset imm)
  | .ldrLit _ _ imm => some (pc + wordOffset imm)
  | .ldrReg _ _ _ => none
  | .br _ => none
  | .blr _ => none

/-- The word at the program counter. -/
def State.fetch (s : State) : Word := readWord 4 s.mem s.pc

/-- One step; `none` when the word is not an instruction of this subset. -/
def step (s : State) : Option State :=
  (decode s.fetch).map fun i => i.effect s.pc (s.pc + 4) s

/-- One or more steps, each from an address among the `n` bytes at `lo`. -/
inductive Executes (lo : BitVec 64) (n : ℕ) : State → State → Prop
  | last {s s'} : InRange lo n s.pc → step s = some s' → Executes lo n s s'
  | more {s s' s''} : InRange lo n s.pc → step s = some s' → Executes lo n s' s'' →
      Executes lo n s s''

theorem step_of_decode {s : State} {i : Instr} (h : decode s.fetch = some i) :
    step s = some (i.effect s.pc (s.pc + 4) s) := by
  rw [step, h]
  rfl

/-- A number of steps. -/
def run : ℕ → State → Option State
  | 0, s => some s
  | n + 1, s => (step s).bind (run n)

theorem run_succ {s s' : State} (h : step s = some s') (n : ℕ) : run (n + 1) s = run n s' := by
  rw [run, h]
  rfl

theorem step_of_fetch {s : State} {i : Instr} (h : s.fetch = i.encode) :
    step s = some (i.effect s.pc (s.pc + 4) s) :=
  step_of_decode (by rw [h, decode_encode])

/-- Two states that differ in the general register `r` at most. -/
structure AgreeExcept (r : Reg) (s s' : State) : Prop where
  x : ∀ q, q ≠ r → s'.x q = s.x q
  sp : s'.sp = s.sp
  v : s'.v = s.v
  n : s'.n = s.n
  z : s'.z = s.z
  c : s'.c = s.c
  o : s'.o = s.o
  mem : s'.mem = s.mem
  pc : s'.pc = s.pc
  prefetches : s'.prefetches = s.prefetches

theorem agreeExcept_refl (r : Reg) (s : State) : AgreeExcept r s s :=
  ⟨fun _ _ => rfl, rfl, rfl, rfl, rfl, rfl, rfl, rfl, rfl, rfl⟩

theorem agreeExcept_writeX (r : Reg) (s : State) (value : BitVec 64) :
    AgreeExcept r s (s.writeX r value) := by
  unfold State.writeX
  split
  · exact agreeExcept_refl r s
  · exact ⟨fun q hq => if_neg hq, rfl, rfl, rfl, rfl, rfl, rfl, rfl, rfl, rfl⟩

theorem AgreeExcept.withPc {r : Reg} {s s' : State} (h : AgreeExcept r s s') (pc : BitVec 64) :
    AgreeExcept r (s.withPc pc) (s'.withPc pc) :=
  ⟨h.x, h.sp, h.v, h.n, h.z, h.c, h.o, h.mem, rfl, h.prefetches⟩

theorem AgreeExcept.writeX {r : Reg} {s s' : State} (h : AgreeExcept r s s') (q : Reg)
    (value : BitVec 64) : AgreeExcept r (s.writeX q value) (s'.writeX q value) := by
  unfold State.writeX
  split
  · exact h
  · exact ⟨fun p hp => congrArg (if p = q then value else ·) (h.x p hp), h.sp, h.v, h.n, h.z, h.c,
      h.o, h.mem, h.pc, h.prefetches⟩

theorem AgreeExcept.writeV {r : Reg} {s s' : State} (h : AgreeExcept r s s') (q : Reg)
    (value : BitVec 128) : AgreeExcept r (s.writeV q value) (s'.writeV q value) :=
  ⟨h.x, h.sp, by rw [State.writeV, State.writeV, h.v], h.n, h.z, h.c, h.o, h.mem, h.pc,
    h.prefetches⟩

theorem AgreeExcept.load {r : Reg} {s s' : State} (h : AgreeExcept r s s') (kind : LoadKind)
    (rt : Reg) (addr : BitVec 64) : AgreeExcept r (load kind rt addr s) (load kind rt addr s') := by
  cases kind with
  | w | x | sw =>
    simp only [A64.load, h.mem]
    exact h.writeX ..
  | s | d | q =>
    simp only [A64.load, h.mem]
    exact h.writeV ..
  | prfm =>
    exact ⟨h.x, h.sp, h.v, h.n, h.z, h.c, h.o, h.mem, h.pc,
      congrArg ((rt, addr) :: ·) h.prefetches⟩

/-! ## Effects -/

theorem writeX_withPc (s : State) (pc : BitVec 64) (r : Reg) (value : BitVec 64) :
    (s.withPc pc).writeX r value = (s.writeX r value).withPc pc := by
  unfold State.writeX
  split <;> rfl

theorem load_withPc (kind : LoadKind) (rt : Reg) (addr : BitVec 64) (s : State) (pc : BitVec 64) :
    load kind rt addr (s.withPc pc) = (load kind rt addr s).withPc pc := by
  cases kind <;> first | exact writeX_withPc .. | rfl

/-- The effect is that at the address given, wherever the program counter is. -/
@[simp] theorem effect_withPc (pc next : BitVec 64) (s : State) (i : Instr) (p : BitVec 64) :
    i.effect pc next (s.withPc p) = i.effect pc next s := by
  cases i with
  | ldrLit kind rt imm | ldrReg kind rt rn =>
    simp only [Instr.effect, load_withPc, State.withPc_withPc, State.withPc_readBase]
  | adr | adrp | bl | blr =>
    simp only [Instr.effect, writeX_withPc, State.withPc_withPc, State.withPc_readX]
  | b | bcond | cbz | tbz | br => rfl

/-- The byte offset of a conditional branch; `none` for other instructions. -/
def Instr.branchOffset : Instr → Option (BitVec 64)
  | .bcond _ imm => some (wordOffset imm)
  | .cbz _ _ _ imm => some (wordOffset imm)
  | .tbz _ _ _ imm => some (wordOffset imm)
  | _ => none

theorem effect_of_branchOffset {i : Instr} {off : BitVec 64} (h : i.branchOffset = some off)
    (pc next : BitVec 64) (s : State) :
    i.effect pc next s = s.withPc (if i.taken s then pc + off else next) := by
  cases i <;> cases h <;> rfl

/-- Two conditions that differ in the lowest bit exclude each other, but for 14 and 15. -/
theorem conditionHolds_invert (s : State) {cond : BitVec 4} (hal : cond ≠ 14) (hnv : cond ≠ 15) :
    conditionHolds s (cond ^^^ 1) = !conditionHolds s cond := by
  simp only [conditionHolds]
  generalize s.n = n, s.z = z, s.c = c, s.o = o
  revert cond n z c o
  decide

theorem taken_al (s : State) (imm : BitVec 19) : (Instr.bcond 14 imm).taken s = true := rfl

/-- The condition 15 is not the negation of 14. -/
theorem taken_nv (s : State) (imm : BitVec 19) : (Instr.bcond 15 imm).taken s = true := rfl

/-- The general registers an instruction reads or writes, for those of this subset. -/
def Instr.usedRegs : Instr → List Reg
  | .adr rd _ => [rd]
  | .adrp rd _ => [rd]
  | .bl _ => [30]
  | .cbz _ _ rt _ => [rt]
  | .tbz _ _ rt _ => [rt]
  | .ldrLit kind rt _ => kind.destination rt
  | .ldrReg kind rt rn => rn :: kind.destination rt
  | .br rn => [rn]
  | .blr rn => [rn, 30]
  | .b _ => []
  | .bcond _ _ => []

theorem Executes.start {lo : BitVec 64} {n : ℕ} {s s' : State} (h : Executes lo n s s') :
    InRange lo n s.pc := by
  cases h <;> assumption

/-- When the first step leaves the range, it is the only one. -/
theorem Executes.eq_of_leaves {lo : BitVec 64} {n : ℕ} {s s₁ s' : State}
    (h : Executes lo n s s') (hstep : step s = some s₁) (hout : ¬ InRange lo n s₁.pc) :
    s' = s₁ := by
  cases h with
  | last _ h => exact Option.some.inj (h.symm.trans hstep)
  | more _ h hrest =>
    rw [Option.some.inj (h.symm.trans hstep)] at hrest
    exact absurd hrest.start hout

end A64
