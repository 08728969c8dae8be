import LittleComputer.Machine.Basic
import LittleComputer.Trap.Routine

/-! One instruction: fetch, decode, execute. Console calls happen in the order of the reads that
make them, and a failing call leaves behind what was done before it. -/
namespace LittleComputer.Machine
variable {σ ε : Type}

/-- What is done to a machine and its console together. -/
abbrev Action (σ ε α : Type) := EStateM ε (Machine × σ) α

/-- Read memory as the program does. -/
def load (con : Console σ) (a : Word) : Action σ Console.Error Word :=
  fun (⟨regs, mem, state, cycles⟩, c) =>
    match Memory.read con a (mem, c) with
    | .ok w (mem, c) => .ok w (⟨regs, mem, state, cycles⟩, c)
    | .error e (mem, c) => .error e (⟨regs, mem, state, cycles⟩, c)

def store (a v : Word) : Action σ ε Unit :=
  fun (⟨regs, mem, state, cycles⟩, c) => .ok () (⟨regs, mem.set a v, state, cycles⟩, c)

/-- Look at the registers. -/
def inRegs {α : Type} (f : Registers → α) : Action σ ε α :=
  fun (m, c) => .ok (f m.regs) (m, c)

def onRegs (f : Registers → Registers) : Action σ ε Unit :=
  fun (⟨regs, mem, state, cycles⟩, c) => .ok () (⟨f regs, mem, state, cycles⟩, c)

def enter (state : State) : Action σ ε Unit :=
  fun (⟨regs, mem, _, cycles⟩, c) => .ok () (⟨regs, mem, state, cycles⟩, c)

/-- One more instruction has been executed. -/
def count : Action σ ε Unit :=
  fun (⟨regs, mem, state, cycles⟩, c) => .ok () (⟨regs, mem, state, cycles + 1⟩, c)

/-- Run a service routine on the machine's registers, with its memory to read. -/
def serve (con : Console σ) (vector : TrapVector) : Action σ Console.Error Trap.Outcome :=
  fun (⟨regs, mem, state, cycles⟩, c) =>
    match Trap.run con mem vector (regs, c) with
    | .ok outcome (regs, c) => .ok outcome (⟨regs, mem, state, cycles⟩, c)
    | .error e (regs, c) => .error e (⟨regs, mem, state, cycles⟩, c)

/-- The value of a second source. -/
def operandValue (rs : Registers) : Operand Reg → Word
  | .reg r => rs.get r
  | .imm v => v

/-- Execute an instruction, with the program counter already past it. A call writes R7 before it
takes its target, so a call through R7 goes to the instruction after it. -/
def execute (con : Console σ) : Instruction Reg → Action σ Console.Error Unit
  | .add dr sr op2 => onRegs fun rs => rs.setFlagged dr (rs.get sr + operandValue rs op2)
  | .and dr sr op2 => onRegs fun rs => rs.setFlagged dr (rs.get sr &&& operandValue rs op2)
  | .not dr sr => onRegs fun rs => rs.setFlagged dr (~~~ rs.get sr)
  | .ld dr offset => do
    let value ← load con (← inRegs (·.pc + offset))
    onRegs (·.setFlagged dr value)
  | .ldi dr offset => do
    let address ← load con (← inRegs (·.pc + offset))
    let value ← load con address
    onRegs (·.setFlagged dr value)
  | .ldr dr base offset => do
    let value ← load con (← inRegs (·.get base + offset))
    onRegs (·.setFlagged dr value)
  | .lea dr offset => onRegs fun rs => rs.setFlagged dr (rs.pc + offset)
  | .st sr offset => do store (← inRegs (·.pc + offset)) (← inRegs (·.get sr))
  | .sti sr offset => do
    let address ← load con (← inRegs (·.pc + offset))
    store address (← inRegs (·.get sr))
  | .str sr base offset => do store (← inRegs (·.get base + offset)) (← inRegs (·.get sr))
  | .br nzp offset =>
    onRegs fun rs => if rs.selectedBy nzp then { rs with pc := rs.pc + offset } else rs
  | .jmp base => onRegs fun rs => { rs with pc := rs.get base }
  | .jsr offset => do
    onRegs fun rs => rs.set .r7 rs.pc
    onRegs fun rs => { rs with pc := rs.pc + offset }
  | .jsrr base => do
    onRegs fun rs => rs.set .r7 rs.pc
    onRegs fun rs => { rs with pc := rs.get base }
  | .trap vector => do
    onRegs fun rs => rs.set .r7 rs.pc
    match ← serve con vector with
    | .resume => return
    | .halt => enter .halted

/-- A machine that has stopped executes nothing. -/
def requireRunning : Action σ Error Unit :=
  fun (m, c) => if m.isRunning then .ok () (m, c) else .error (.notRunning m.state) (m, c)

/-- The instruction of a word fetched at `pc`. A word that is none stops the machine. -/
def decodeOrFault (pc word : Word) : Action σ Error (Instruction Reg) :=
  match Instruction.decode word with
  | .ok i => pure i
  | .error cause => do
    enter .faulted
    throw (.fault pc word cause)

/-- Execute the next instruction and say which it was. Only a completed instruction counts. -/
def step (con : Console σ) : Action σ Error (Instruction Reg) := do
  requireRunning
  let pc ← inRegs (·.pc)
  let word ← (load con pc).adaptExcept .console
  onRegs (·.advance)
  let i ← decodeOrFault pc word
  (execute con i).adaptExcept .console
  count
  return i

end LittleComputer.Machine
