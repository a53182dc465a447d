import EventLoop.Task.Asm

/-!
The contexts of all ports: a context that `getcontext` has left has the call return once more
when it is given to `setcontext`, in whatever order the tasks save and resume one another.
-/

namespace EventLoop.Task

open EventLoop.Coroutines EventLoop.Machine

/-- The ports of `asm.S` but the one that saves segment registers. -/
inductive Port where
  | amd64 | arm | mips | power
deriving DecidableEq, Repr

namespace Port

def Reg : Port → Type
  | amd64 => Amd64.Reg
  | arm => Arm.Reg
  | mips => Mips.Reg
  | power => Power.Reg

instance : (port : Port) → DecidableEq port.Reg
  | amd64 => inferInstanceAs (DecidableEq Amd64.Reg)
  | arm => inferInstanceAs (DecidableEq Arm.Reg)
  | mips => inferInstanceAs (DecidableEq Mips.Reg)
  | power => inferInstanceAs (DecidableEq Power.Reg)

/-- `sizeof(long)` -/
def size : Port → Nat
  | amd64 => 8
  | arm | mips | power => 4

def switch : (port : Port) → Switch port.Reg port.size
  | amd64 => Amd64.switch
  | arm => Arm.switch
  | mips => Mips.switch
  | power => Power.switch

/-- The register that has what a function returns. -/
def result : (port : Port) → port.Reg
  | amd64 => Amd64.Reg.rax
  | arm => Arm.Reg.r0
  | mips => Mips.v0
  | power => Power.r3

/-- What `getmcontext` leaves as it finds it and a caller may rely on: the stack and what the
functions of the port save for their callers at least. -/
def Keeps : (port : Port) → port.Reg → Prop
  | amd64, r => r ≠ Amd64.Reg.rax
  | arm, r => r ≠ Arm.Reg.r0 ∧ r ≠ Arm.Reg.r1
  | mips, r => r ∈ Mips.kept
  | power, .r i => i.val = 1 ∨ i.val = 2 ∨ 13 ≤ i.val
  | power, _ => True

/-- What `getmcontext` returns the second time, on a call of `setmcontext` in `t`. -/
def secondResult : (port : Port) → State port.Reg port.size → Word port.size
  | mips, t => t.regs Mips.v0
  | amd64, _ | arm, _ | power, _ => 1

end Port

/-- Both returns of a call of `getmcontext`, for each port. -/
theorem Port.returns (port : Port) {snap : State port.Reg port.size}
    (hfits : (snap.regs port.switch.arg).toNat + port.switch.extent ≤ 2 ^ (8 * port.size))
    (hslot : Apart (port.switch.slot snap) port.switch.slotSize
      (snap.regs port.switch.arg).toNat port.switch.extent) (t : State port.Reg port.size) :
    let first := port.switch.save.run snap
    let again := port.switch.resumed snap t
    again.pc = first.pc ∧ (∀ r, port.Keeps r → again.regs r = first.regs r) ∧
      first.regs port.result = 0 ∧ again.regs port.result = port.secondResult t := by
  cases port with
  | amd64 =>
      have hfirst : Port.amd64.switch.save.run snap = Amd64.returned snap :=
        Amd64.getmcontext_run hfits hslot
      rw [hfirst]
      refine ⟨rfl, ?_, rfl, rfl⟩
      intro r hr
      cases (r : Amd64.Reg) with
      | rax => exact absurd rfl hr
      | _ => rfl
  | arm =>
      have hfirst : Port.arm.switch.save.run snap = Arm.returned snap := Arm.getmcontext_run hfits
      rw [hfirst]
      refine ⟨rfl, ?_, rfl, rfl⟩
      intro r hr
      cases (r : Arm.Reg) with
      | r0 => exact absurd rfl hr.1
      | r1 => exact absurd rfl hr.2
      | _ => rfl
  | mips =>
      have hfirst : Port.mips.switch.save.run snap = Mips.returned snap :=
        Mips.getmcontext_run hfits
      rw [hfirst]
      refine ⟨rfl, ?_, rfl, rfl⟩
      intro (r : Mips.Reg) hr
      have hkeeps : r ∈ Mips.kept := hr
      revert hkeeps
      clear hr
      fin_cases r <;> intro hkeeps <;> first | rfl | exact absurd hkeeps (by decide)
  | power =>
      have hfirst : Port.power.switch.save.run snap = Power.returned snap :=
        Power.getmcontext_run hfits
      rw [hfirst]
      refine ⟨rfl, ?_, rfl, rfl⟩
      intro r hr
      cases (r : Power.Reg) with
      | r i =>
          have hi : i.val = 1 ∨ i.val = 2 ∨ 13 ≤ i.val := hr
          revert hi
          fin_cases i <;> intro hi <;> first | rfl | exact absurd hi (by decide)
      | _ => rfl

/-- Tasks that save and resume one another in any order, and in between do anything but write to a
context in use: `setcontext` has the last call of `getcontext` on its context return again, to the
same place with the same stack and registers, and writes nothing but the return address of that
call. It returns 0 the first time and 1 the second; on MIPS what is in `$2` then. -/
theorem getcontext_returns_again (port : Port) {ι : Type} [DecidableEq ι] {place : ι → Nat}
    (hplaced : Placed port.switch place) {c : Config ι port.Reg port.size}
    (hreach : Reachable port.switch place c) {i : ι} {snap : State port.Reg port.size}
    (hsaved : c.saved i = some snap) (harg : (c.state.regs port.switch.arg).toNat = place i) :
    let first := port.switch.save.run snap
    let again := port.switch.restore.run c.state
    again.pc = first.pc ∧ (∀ r, port.Keeps r → again.regs r = first.regs r) ∧
      first.regs port.result = 0 ∧ again.regs port.result = port.secondResult c.state ∧
      ∀ a, a < port.switch.slot snap ∨ port.switch.slot snap + port.switch.slotSize ≤ a →
        again.mem a = c.state.mem a := by
  have hkept := hreach.kept hplaced
  have hplace := hkept.at_place i snap hsaved
  have hfits : (snap.regs port.switch.arg).toNat + port.switch.extent ≤ 2 ^ (8 * port.size) := by
    rw [hplace]
    exact hplaced.fits i
  have hslot : Apart (port.switch.slot snap) port.switch.slotSize
      (snap.regs port.switch.arg).toNat port.switch.extent := by
    rw [hplace]
    exact hkept.slot i snap hsaved i
  intro first again
  have hagain : again = port.switch.resumed snap c.state := hkept.restore_run hplaced hsaved harg
  rw [hagain]
  obtain ⟨hpc, hregs, hzero, hresult⟩ := port.returns hfits hslot c.state
  exact ⟨hpc, hregs, hzero, hresult,
    fun a ha => port.switch.resumed_outside snap c.state a ha⟩

/-- Two tasks: the second saves itself, and then the first is resumed. -/
theorem getcontext_returns_again_amd64 :
    let regs : Nat → Amd64.Reg → Word 8 := fun rdi r =>
      match r with
      | .rdi => .ofNat 64 rdi
      | .rsp => 65536#64
      | _ => 7#64
    let snap : State Amd64.Reg 8 := ⟨regs 4096, fun _ => 0, 0#64⟩
    let other : State Amd64.Reg 8 := { Amd64.getmcontext.run snap with regs := regs 8192 }
    let s : State Amd64.Reg 8 := { Amd64.getmcontext.run other with regs := regs 4096 }
    (Amd64.setmcontext.run s).pc = (Amd64.getmcontext.run snap).pc ∧
      (Amd64.setmcontext.run s).regs .rbx = (Amd64.getmcontext.run snap).regs .rbx ∧
      (Amd64.getmcontext.run snap).regs .rax = 0 ∧ (Amd64.setmcontext.run s).regs .rax = 1 := by
  intro regs snap other s
  let place : Bool → Nat := fun task => if task then 8192 else 4096
  have hplaced : Placed Port.amd64.switch place := by
    constructor
    · intro i
      cases i <;> decide
    · intro i j hij
      cases i <;> cases j <;> first | exact absurd rfl hij | decide
  have hslot {t : State Amd64.Reg 8} (ht : t.regs .rsp = 65536#64) (j : Bool) :
      Apart (Port.amd64.switch.slot t) Port.amd64.switch.slotSize (place j)
        Port.amd64.switch.extent := by
    change Apart (t.regs .rsp).toNat 8 (place j) 192
    rw [ht]
    cases j <;> decide
  have hfirst : Reachable Port.amd64.switch place
      ⟨Amd64.getmcontext.run snap, Function.update (fun _ => none) false (some snap)⟩ :=
    .step (.init snap) (.save false rfl (hslot rfl))
  have hother := hfirst.step (.compute other (fun _ _ _ _ _ => rfl))
  have hsaved := hother.step (.save true rfl (hslot rfl))
  have hreach := hsaved.step (.compute s (fun _ _ _ _ _ => rfl))
  obtain ⟨hpc, hregs, hzero, hone, -⟩ :=
    getcontext_returns_again .amd64 hplaced hreach (i := false) rfl rfl
  exact ⟨hpc, hregs .rbx Amd64.Reg.noConfusion, hzero, hone⟩

end EventLoop.Task
