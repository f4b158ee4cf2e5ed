import Funchook.ImportTable
import Funchook.TrampolineRunX86

/-!
# Import thunks on x86 and x86-64 (`os_windows.c`)

`funchook_resolve_func` of the Windows build follows a jump of five bytes and then a jump through
memory. When the memory is a slot of the import table of the module, the function in the slot is
hooked in place of the thunk: it is what a call of the thunk comes to.
-/

namespace Funchook.X86

open ByteMemory
open ByteCode (Machine)
open Ia32 (Instr State)
open Windows

/-! ## The thunk -/

/-- `fn`, behind a relative jump if there is one. -/
def behindJump {w : ℕ} (m : Mem w) (func : Addr w) : Addr w :=
  if m func = 0xe9 then func + 5 + (readWord 4 m (func + 1) : BitVec 32).signExtend w else func

/-- `pos`, zero where there is no jump through memory. -/
def thunkSlot (cpu : Cpu) (m : Mem cpu.bits) (func : Addr cpu.bits) : Addr cpu.bits :=
  let fn := behindJump m func
  if m fn = 0xff ∧ m (fn + 1) = 0x25 then indirectSlot cpu (fn + 6) (readWord 4 m (fn + 2))
  else 0

/-! ## What is resolved -/

/-- `funchook_resolve_func`; `none` when the loops over the import table have not ended after `fuel`
rounds. -/
def windowsResolveFunc (cpu : Cpu) (m : Mem cpu.bits)
    (moduleOf : Addr cpu.bits → Option (Addr cpu.bits)) (fuel : ℕ) (func : Addr cpu.bits) :
    Option (Addr cpu.bits) :=
  resolveImport m moduleOf fuel (thunkSlot cpu m func) func

/-- The function is a thunk, and its slot is in the import table of its module. -/
def IsImported {cpu : Cpu} (moduleOf : Addr cpu.bits → Option (Addr cpu.bits))
    (m : Mem cpu.bits) (func : Addr cpu.bits) : Prop :=
  ImportedAt moduleOf m (thunkSlot cpu m func) func

variable {cpu : Cpu}

/-! ## What a call of the thunk comes to -/

section Steps

variable {σ : Type} {M : Machine cpu.bits σ} {s : σ} {func : Addr cpu.bits}

/-- An opcode and the word behind it. -/
theorem holds_opcode {m : Mem cpu.bits} {a : Addr cpu.bits} {opcode : List Byte}
    (h : Holds m a opcode) : Holds m a
      (opcode ++ leBytes 4 (readWord 4 m (a + BitVec.ofNat cpu.bits opcode.length))) :=
  holds_append.mpr ⟨h, holds_readWord 4 m _⟩

/-- The relative jump is run. -/
theorem steps_behindJump (hjump : JumpsNear M) :
    M.Steps (M.withIp s func) (M.withIp s (behindJump (M.mem s) func)) := by
  unfold behindJump
  split
  · rename_i hopcode
    have hholds : Holds (M.mem s) func [0xe9] := holds_of_bytes fun i hi => by
      obtain rfl : i = 0 := by simpa using hi
      exact (congrArg (M.mem s) (BitVec.add_zero func)).trans hopcode
    have hcode := holds_opcode hholds
    refine .single ?_
    rw [Machine.step_of_holds (hjump.insn _) (by rw [M.mem_withIp, M.ip_withIp]; exact hcode),
      M.exec_withIp, hjump.exec, M.ip_withIp]
    rfl
  · exact .refl

/-- The jump through memory is run. -/
theorem step_thunkSlot (hindirect : JumpsThroughMemory cpu M)
    (hne : thunkSlot cpu (M.mem s) func ≠ 0) :
    M.step (M.withIp s (behindJump (M.mem s) func)) =
      some (M.withIp s (readPtr (M.mem s) (thunkSlot cpu (M.mem s) func))) := by
  unfold thunkSlot at hne ⊢
  dsimp only at hne ⊢
  split at hne
  · rename_i hopcode
    have hholds : Holds (M.mem s) (behindJump (M.mem s) func) [0xff, 0x25] :=
      holds_of_bytes fun i hi => by
        obtain rfl | rfl : i = 0 ∨ i = 1 := by
          simp only [List.length_cons, List.length_nil] at hi
          omega
        · exact (congrArg (M.mem s) (BitVec.add_zero _)).trans hopcode.1
        · exact hopcode.2
    have hcode := holds_opcode hholds
    rw [if_pos hopcode, Machine.step_of_holds (hindirect.insn _)
      (by rw [M.mem_withIp, M.ip_withIp]; exact hcode), M.exec_withIp, hindirect.exec,
      M.ip_withIp]
    rfl
  · exact absurd rfl hne

/-- **Resolving a thunk.** The search ends, and the function it leads to is one that a call comes
to: the function in the import slot of a thunk, and the function itself when there is no such
slot. -/
theorem resolved_is_reached (moduleOf : Addr cpu.bits → Option (Addr cpu.bits))
    (hjump : JumpsNear M) (hindirect : JumpsThroughMemory cpu M)
    (hends : ∀ hMod desc, moduleOf func = some hMod →
      getImageImportDescriptor (M.mem s) hMod = some desc → ImportsEnd (M.mem s) hMod desc) :
    ∃ f rounds, (∀ fuel, rounds ≤ fuel →
      windowsResolveFunc cpu (M.mem s) moduleOf fuel func = some f) ∧
        M.Steps (M.withIp s func) (M.withIp s f) ∧
          (IsImported moduleOf (M.mem s) func ∧
              f = readPtr (M.mem s) (thunkSlot cpu (M.mem s) func) ∨
            ¬ IsImported moduleOf (M.mem s) func ∧ f = func) := by
  obtain ⟨f, rounds, hruns, hfound⟩ :=
    resolveImport_found (thunkSlot cpu (M.mem s) func) hends
  refine ⟨f, rounds, hruns, ?_, hfound⟩
  rcases hfound with ⟨himported, rfl⟩ | ⟨-, rfl⟩
  · exact (steps_behindJump hjump).tail (step_thunkSlot hindirect himported.1)
  · exact .refl

end Steps

/-! ## A sample module -/

/-- A module at `0x140000000` that imports one function, with a thunk for it at `0x140001000`. -/
def sampleModule : Mem 64 :=
  [((0x140000000 : Addr 64), ([0x4d, 0x5a] : List Byte)),
    (0x14000003c, [0x80]),
    (0x140000110, [0x00, 0x20]),                      -- the import directory
    (0x14000200c, [0x00, 0x30]),                      -- the name of a descriptor
    (0x140002010, [0x00, 0x31]),                      -- its first thunk
    (0x140003100, [0x00, 0x10, 0x00, 0x00, 0xf8, 0x7f]),
    (0x140001000, [0xff, 0x25, 0xfa, 0x20, 0x00, 0x00])].foldl
      (fun m (block : Addr 64 × List Byte) => write m block.1 block.2) fun _ => 0

theorem sampleModule_ends (hMod desc : Addr 64)
    (hmodule : (some 0x140000000 : Option (Addr 64)) = some hMod)
    (hhead : getImageImportDescriptor sampleModule hMod = some desc) :
    ImportsEnd sampleModule hMod desc := by
  obtain rfl := Option.some.inj hmodule
  have hdesc : getImageImportDescriptor sampleModule 0x140000000 = some 0x140002000 := by
    decide +kernel
  obtain rfl := Option.some.inj (hdesc.symm.trans hhead)
  exact .next (.next (.null (by decide +kernel))) (.null (by decide +kernel))

theorem resolved_is_reached_sample :
    ∃ f rounds, (∀ fuel, rounds ≤ fuel →
      windowsResolveFunc .x86_64 sampleModule (fun _ => some 0x140000000) fuel 0x140001000 =
        some f) ∧
      (Ia32.machine 64).Steps (.initial sampleModule 0x140001000) (.initial sampleModule f) ∧
        (@IsImported .x86_64 (fun _ => some 0x140000000) sampleModule 0x140001000 ∧
            f = readPtr sampleModule (thunkSlot .x86_64 sampleModule 0x140001000) ∨
          ¬ @IsImported .x86_64 (fun _ => some 0x140000000) sampleModule 0x140001000 ∧
            f = 0x140001000) :=
  @resolved_is_reached .x86_64 (State 64) (Ia32.machine 64) (.initial sampleModule 0) 0x140001000
    (fun _ => some 0x140000000) (machine_jumpsNear 64) machine_jumpsThroughMemory
    sampleModule_ends

end Funchook.X86
