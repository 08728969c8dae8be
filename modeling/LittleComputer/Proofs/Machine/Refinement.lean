import LittleComputer.Proofs.Machine.OpcodeTable
import LittleComputer.Proofs.Machine.Stepping
import LittleComputer.Proofs.Memory.Strings
import LittleComputer.Proofs.Registers
import LittleComputer.Proofs.Trap.Calls

/-! A step is the row of the fetched word in the table of operations, on any console whose calls
all succeed. -/
namespace LittleComputer.OpcodeTable
variable {σ : Type} {con : Console σ} {r : Replies σ}

theorem ofWord_eq_sign (v : Word) : Flag.ofWord v = sign v := by
  have hz : (v == 0) = decide (v.toBitVec.toInt = 0) := by
    rw [Bool.eq_iff_iff, beq_iff_eq, decide_eq_true_eq, ← UInt16.toBitVec_inj, ← BitVec.toInt_inj]
    rfl
  have hn : (v >>> 15 == 1) = decide (v.toBitVec.toInt < 0) := by
    rw [Bool.eq_iff_iff, beq_iff_eq, decide_eq_true_eq, BitVec.toInt_neg_iff, ← UInt16.toNat_inj]
    have hv := v.toNat_lt
    change v.toNat >>> 15 = 1 ↔ 2 ^ 16 ≤ 2 * v.toNat
    omega
  simp only [Flag.ofWord, sign, hz, hn, decide_eq_true_eq]
  split <;> split <;> first | rfl | omega

theorem assign_eq (dr : Reg) (v : Word) (m : Machine) :
    { m with regs := m.regs.setFlagged dr v } = assign dr v m := by
  rw [Registers.setFlagged_eq, ofWord_eq_sign]
  rfl

private theorem mask_bits (b : BitVec 3) (f : Flag) :
    b.setWidth 16 &&& f.bits.toBitVec = 0#16 ↔ b &&& condition f = 0#3 := by
  revert b
  cases f <;> decide

/-- A branch is taken when the mask and the condition register share a bit. -/
theorem selectedBy_eq (w : Word) (rs : Registers) :
    rs.selectedBy ((w >>> 9) &&& 7) = decide (bits w 9 3 &&& condition rs.cond ≠ 0) := by
  rw [Registers.selectedBy, Bool.eq_iff_iff, bne_iff_ne, decide_eq_true_eq]
  apply not_congr
  rw [← UInt16.toBitVec_inj, UInt16.toBitVec_and, mask_eq_bits]
  exact mask_bits _ _

theorem operandValue_eq (w : Word) (rs : Registers) :
    Machine.operandValue rs (Instruction.operandOf w) =
      if bits w 5 1 = 1#1 then signed w 5 else rs.get (regAt w 0) := by
  have ht : ((w >>> 5) &&& 1 == 1) = (bits w 5 1 == 1#1) :=
    (bit_test w (by decide : 5 < 16)).trans (getLsbD_eq_bits w 5)
  have hl : signExtend w 5 = signed w 5 := signExtend_eq_signed w (by decide) (by decide)
  have hr : Reg.ofBits w = regAt w 0 := rfl
  rw [Instruction.operandOf, ht, hl, hr]
  by_cases hb : bits w 5 1 = 1#1 <;> simp [hb, Machine.operandValue]

theorem read_of_ne {a : Word} (h : a ≠ keyStatus) (m : Machine) (c : σ) :
    r.read a m c = (m.mem.peek a, m, c) := if_neg h

theorem read_status (m : Machine) (c : σ) :
    r.read keyStatus m c =
      (Memory.statusOf (r.pollKey c).1, { m with mem := m.mem.latch (r.pollKey c).1 },
        (r.pollKey c).2) := by
  refine (if_pos rfl).trans ?_
  rcases r.pollKey c with ⟨key, c'⟩
  cases key <;> rfl

/-- A read of memory changes nothing but memory. -/
theorem memory_read_eq (hr : r.Describes con) (a : Word) (m : Machine) (c : σ) :
    Memory.read con a (m.mem, c) =
        .ok (r.read a m c).1 ((r.read a m c).2.1.mem, (r.read a m c).2.2) ∧
      (r.read a m c).2.1 = { m with mem := (r.read a m c).2.1.mem } := by
  by_cases ha : a = keyStatus
  · subst ha
    rw [read_status]
    exact ⟨Memory.read_status_of_ok (hr.pollKey c) m.mem, rfl⟩
  · rw [read_of_ne ha]
    exact ⟨Memory.read_of_ne ha con m.mem c, rfl⟩

theorem load_eq_read (hr : r.Describes con) (a : Word) (m : Machine) (c : σ) :
    Machine.load con a (m, c) = .ok (r.read a m c).1 (r.read a m c).2 := by
  obtain ⟨hread, hframe⟩ := memory_read_eq hr a m c
  exact Machine.load_eq_ok.2 ⟨_, hread, hframe⟩

theorem stringAt_eq_text (mem : Memory) (a : Word) : mem.stringAt a = text mem a := by
  obtain ⟨le, nonzero, zero⟩ := mem.extent_hasLength a
  have split : List.range 65536 =
      List.range (mem.extent a) ++ (List.range (65536 - mem.extent a)).map (mem.extent a + ·) := by
    rw [← List.range_add, Nat.add_sub_cancel' le]
  have before : ∀ w ∈ mem.stringAt a, decide (w ≠ 0) = true := by
    intro w hw
    rw [mem.stringAt_eq, List.mem_map] at hw
    obtain ⟨i, hi, rfl⟩ := hw
    exact decide_eq_true (nonzero i (List.mem_range.1 hi))
  -- If there are words left then the first of them is the zero that ends the string.
  have behind : ((List.range (65536 - mem.extent a)).map fun i =>
      mem.wordAfter a (mem.extent a + i)).takeWhile (· ≠ 0) = [] := by
    cases hn : 65536 - mem.extent a with
    | zero => rfl
    | succ n => simp [List.range_succ_eq_map, zero (by omega)]
  rw [text, split, List.map_append, List.map_map, funext (mem.peek_add a), ← mem.stringAt_eq,
    List.takeWhile_append_of_pos before]
  exact ((congrArg _ behind).trans (List.append_nil _)).symm

theorem writeBytes_eq (hr : r.Describes con) (bytes : List Byte) (c : σ) :
    con.writeBytes bytes c = .ok () (bytes.foldl (fun c b => r.writeByte b c) c) := by
  induction bytes generalizing c with
  | nil => rfl
  | cons b bytes ih => exact (bind_of_ok (hr.writeByte b c)).trans (ih _)

private theorem write_bind {β : Type} (hr : r.Describes con) (bytes : List Byte)
    (k : Unit → EStateM Console.Error (Registers × σ) β) (rs : Registers) (c : σ) :
    (Trap.calling (con.writeBytes bytes) >>= fun _ => Trap.calling con.flush >>= k) (rs, c) =
      k () (rs, r.write bytes c) := by
  rw [bind_of_ok (Trap.calling_of_ok (writeBytes_eq hr bytes c) rs),
    bind_of_ok (Trap.calling_of_ok (hr.flush _) rs)]
  rfl

theorem lowByte_eq (w : Word) : lowByte w = low w := lowByte_eq_bits w

theorem highByte_eq (w : Word) : highByte w = high w := by
  apply UInt8.toNat_inj.1
  change (w >>> 8).toNat % 2 ^ 8 = (w.toNat >>> 8) % 2 ^ 8
  rw [UInt16.toNat_shiftRight]
  rfl

theorem packedBytes_eq (w : Word) :
    Trap.packedBytes w = if high w = 0 then [low w] else [low w, high w] := by
  simp [Trap.packedBytes, lowByte_eq, highByte_eq]

/-- What a routine makes of the registers and the console, and whether it halts. -/
theorem run_eq_serve (hr : r.Describes con) (v : TrapVector) (m : Machine) (c : σ) :
    ∃ o, Trap.run con m.mem v (m.regs, c) =
        .ok o ((r.serve v.code.toBitVec m c).1.regs, (r.serve v.code.toBitVec m c).2) ∧
      (r.serve v.code.toBitVec m c).1 =
        { m with
          regs := (r.serve v.code.toBitVec m c).1.regs
          state := match o with | .resume => m.state | .halt => .halted } := by
  have hk (key : Byte) : m.regs.setFlagged .r0 key.toUInt16 = (assign .r0 key.toUInt16 m).regs :=
    congrArg Machine.regs (assign_eq .r0 key.toUInt16 m)
  cases v with
  | getc =>
    refine ⟨.resume, ?_, rfl⟩
    simp only [Trap.run, bind_of_ok (Trap.calling_of_ok (hr.readKey c) _), Trap.receive_bind,
      bind_of_ok (Trap.calling_of_ok (hr.flush _) _), hk]
    rfl
  | out =>
    refine ⟨.resume, ?_, rfl⟩
    simp only [Trap.run, Trap.get_bind, bind_of_ok (Trap.calling_of_ok (hr.writeByte _ c) _),
      bind_of_ok (Trap.calling_of_ok (hr.flush _) _), lowByte_eq]
    rfl
  | puts =>
    refine ⟨.resume, ?_, rfl⟩
    rw [Trap.run, Trap.get_bind, write_bind hr, stringAt_eq_text, funext lowByte_eq]
    rfl
  | prompt =>
    refine ⟨.resume, ?_, rfl⟩
    simp only [Trap.run, write_bind hr, bind_of_ok (Trap.calling_of_ok (hr.readKey _) _),
      bind_of_ok (Trap.calling_of_ok (hr.writeByte _ _) _), Trap.receive_bind,
      bind_of_ok (Trap.calling_of_ok (hr.flush _) _), hk]
    rfl
  | putsp =>
    refine ⟨.resume, ?_, rfl⟩
    rw [Trap.run, Trap.get_bind, write_bind hr, stringAt_eq_text, funext packedBytes_eq]
    rfl
  | halt =>
    refine ⟨.halt, ?_, rfl⟩
    simp only [Trap.run, write_bind hr]
    rfl

/-- Executing what a word decodes to is the row of the word. -/
theorem execute_eq_row (hr : r.Describes con) {w : Word} {i : Instruction Reg}
    (hd : Instruction.decode w = .ok i) (m : Machine) (c : σ) :
    Machine.execute con i (m, c) = .ok () (r.row w m c) := by
  have hdr : Reg.ofBits (w >>> 9) = regAt w 9 := ofBits_shift w (by decide)
  have hsr : Reg.ofBits (w >>> 6) = regAt w 6 := ofBits_shift w (by decide)
  have h9 : signExtend w 9 = signed w 9 := signExtend_eq_signed w (by decide) (by decide)
  have h6 : signExtend w 6 = signed w 6 := signExtend_eq_signed w (by decide) (by decide)
  cases ho : Opcode.ofWord w with
  | br =>
    have hb : bits w 12 4 = 0b0000#4 := bits_opcode ho
    simp only [Instruction.decode, ho, h9] at hd
    cases hd
    simp only [Replies.row, hb, Machine.execute, Machine.onRegs_apply, selectedBy_eq,
      decide_eq_true_eq]
    split <;> rfl
  | add =>
    have hb : bits w 12 4 = 0b0001#4 := bits_opcode ho
    simp only [Instruction.decode, ho, hdr, hsr] at hd
    cases hd
    simp only [Replies.row, hb, Machine.execute, Machine.onRegs_apply, operandValue_eq, assign_eq]
  | ld =>
    have hb : bits w 12 4 = 0b0010#4 := bits_opcode ho
    simp only [Instruction.decode, ho, hdr, h9] at hd
    cases hd
    simp only [Replies.row, hb, Machine.execute, Machine.inRegs_bind,
      bind_of_ok (load_eq_read hr _ m c), Machine.onRegs_apply, assign_eq]
  | st =>
    have hb : bits w 12 4 = 0b0011#4 := bits_opcode ho
    simp only [Instruction.decode, ho, hdr, h9] at hd
    cases hd
    simp only [Replies.row, hb, Machine.execute, Machine.inRegs_bind, Machine.store_apply, store]
  | jsr =>
    have hb : bits w 12 4 = 0b0100#4 := bits_opcode ho
    have ht : ((w >>> 11) &&& 1 == 1) = (bits w 11 1 == 1#1) :=
      (bit_test w (by decide : 11 < 16)).trans (getLsbD_eq_bits w 11)
    have h11 : signExtend w 11 = signed w 11 := signExtend_eq_signed w (by decide) (by decide)
    simp only [Instruction.decode, ho, hsr, ht, h11, beq_iff_eq] at hd
    cases hd
    simp only [Replies.row, hb]
    split
    · rfl
    · rfl
  | and =>
    have hb : bits w 12 4 = 0b0101#4 := bits_opcode ho
    simp only [Instruction.decode, ho, hdr, hsr] at hd
    cases hd
    simp only [Replies.row, hb, Machine.execute, Machine.onRegs_apply, operandValue_eq, assign_eq]
  | ldr =>
    have hb : bits w 12 4 = 0b0110#4 := bits_opcode ho
    simp only [Instruction.decode, ho, hdr, hsr, h6] at hd
    cases hd
    simp only [Replies.row, hb, Machine.execute, Machine.inRegs_bind,
      bind_of_ok (load_eq_read hr _ m c), Machine.onRegs_apply, assign_eq]
  | str =>
    have hb : bits w 12 4 = 0b0111#4 := bits_opcode ho
    simp only [Instruction.decode, ho, hdr, hsr, h6] at hd
    cases hd
    simp only [Replies.row, hb, Machine.execute, Machine.inRegs_bind, Machine.store_apply, store]
  | rti | res =>
    simp only [Instruction.decode, ho] at hd
    cases hd
  | not =>
    have hb : bits w 12 4 = 0b1001#4 := bits_opcode ho
    simp only [Instruction.decode, ho, hdr, hsr] at hd
    cases hd
    simp only [Replies.row, hb, Machine.execute, Machine.onRegs_apply, assign_eq]
  | ldi =>
    have hb : bits w 12 4 = 0b1010#4 := bits_opcode ho
    simp only [Instruction.decode, ho, hdr, h9] at hd
    cases hd
    simp only [Replies.row, hb, Machine.execute, Machine.inRegs_bind,
      bind_of_ok (load_eq_read hr _ _ _), Machine.onRegs_apply, assign_eq]
  | sti =>
    have hb : bits w 12 4 = 0b1011#4 := bits_opcode ho
    have hregs : (r.read (m.regs.pc + signed w 9) m c).2.1.regs = m.regs :=
      (congrArg Machine.regs (memory_read_eq hr (m.regs.pc + signed w 9) m c).2).trans rfl
    simp only [Instruction.decode, ho, hdr, h9] at hd
    cases hd
    simp only [Replies.row, hb, Machine.execute, Machine.inRegs_bind,
      bind_of_ok (load_eq_read hr _ m c), Machine.store_apply, store, hregs]
  | jmp =>
    have hb : bits w 12 4 = 0b1100#4 := bits_opcode ho
    simp only [Instruction.decode, ho, hsr] at hd
    cases hd
    simp only [Replies.row, hb, Machine.execute, Machine.onRegs_apply, jump]
  | lea =>
    have hb : bits w 12 4 = 0b1110#4 := bits_opcode ho
    simp only [Instruction.decode, ho, hdr, h9] at hd
    cases hd
    simp only [Replies.row, hb, Machine.execute, Machine.onRegs_apply, assign_eq]
  | trap =>
    have hb : bits w 12 4 = 0b1111#4 := bits_opcode ho
    simp only [Instruction.decode, ho] at hd
    cases hv : TrapVector.ofCode? (lowByte w) with
    | none => simp [hv] at hd
    | some v =>
      simp only [hv] at hd
      cases hd
      have hc : bits w 0 8 = v.code.toBitVec := ofCode?_lowByte_eq_some.1 hv
      obtain ⟨o, hrun, hframe⟩ := run_eq_serve hr v (link m) c
      simp only [Replies.row, hb, hc, Machine.execute, Machine.onRegs_bind]
      refine (bind_of_ok (Machine.serve_eq_ok.2 ⟨_, hrun, rfl⟩)).trans ?_
      cases o <;> exact congrArg (fun m' => EStateM.Result.ok () (m', _)) hframe.symm

private theorem ofCode?_isSome :
    ∀ b : BitVec 8, 0x20#8 ≤ b → b ≤ 0x25#8 → (TrapVector.ofCode? ⟨b⟩).isSome := by
  decide

/-- The words that say something to do are the ones that decode. -/
theorem decode_of_executable {w : Word} (h : Executable w) :
    ∃ i, Instruction.decode w = .ok i := by
  obtain ⟨hrti, hres, htrap⟩ := h
  cases ho : Opcode.ofWord w with
  | rti => exact absurd (bits_opcode ho) hrti
  | res => exact absurd (bits_opcode ho) hres
  | trap =>
    obtain ⟨hlo, hhi⟩ := htrap (bits_opcode ho)
    obtain ⟨v, hv⟩ := Option.isSome_iff_exists.1 (ofCode?_isSome _ hlo hhi)
    have hv' : TrapVector.ofCode? (lowByte w) = some v := (lowByte_eq w).symm ▸ hv
    exact ⟨.trap v, by simp only [Instruction.decode, ho, hv']⟩
  | br | add | ld | st | jsr | and | ldr | str | not | ldi | sti | jmp | lea =>
    simp only [Instruction.decode, ho]
    exact ⟨_, rfl⟩

/-- A step of a running machine does what the table says for the fetched word, and counts it. -/
theorem step_eq_next (hr : r.Describes con) {m : Machine} {c : σ} (running : m.state = .running)
    (room : m.cycles.toNat < UInt64.size - 1) (hw : Executable (r.fetched m c)) :
    ∃ i, Instruction.decode (r.fetched m c) = .ok i ∧
      Machine.step con (m, c) = .ok i (r.next m c) ∧
      (r.next m c).1.cycles.toNat = m.cycles.toNat + 1 := by
  obtain ⟨i, hd⟩ := decode_of_executable hw
  obtain ⟨hread, hframe⟩ := memory_read_eq hr m.regs.pc m c
  have hf : m.fetched (r.read m.regs.pc m c).2.1.mem =
      jump ((r.read m.regs.pc m c).2.1.regs.pc + 1) (r.read m.regs.pc m c).2.1 := by
    rw [hframe]
    rfl
  have hx := execute_eq_row hr hd (m.fetched (r.read m.regs.pc m c).2.1.mem)
    (r.read m.regs.pc m c).2.2
  have hs := Machine.step_of_execute running hread hd hx
  have hcount (k : UInt64) : UInt64.ofNat (k.toNat + 1) = k + 1 := by simp
  have hn : Machine.step con (m, c) = .ok i (r.next m c) := by
    rw [hs, hf]
    simp only [Replies.next, hcount]
    rfl
  exact ⟨i, hd, hn, Machine.toNat_cycles_of_step hn (by omega)⟩

/-- A call through R7, which goes to the instruction after it and not to what R7 held. -/
theorem step_eq_next_of_call_through_link :
    let r : Replies Unit := ⟨fun _ => (none, ()), fun _ => (0, ()), fun _ _ => (), fun _ => ()⟩
    let m : Machine := { mem := Memory.set {} startAddress 0x41C0 }
    m.state = .running ∧ m.cycles.toNat < UInt64.size - 1 ∧ Executable (r.fetched m ()) ∧
      Machine.step r.console (m, ()) = .ok (.jsrr .r7) (r.next m ()) ∧
      (r.next m ()).1.cycles = 1 ∧ (r.next m ()).1.regs.pc = 0x3001 ∧
      (r.next m ()).1.regs.get .r7 = 0x3001 := by
  intro r m
  have hp : m.mem.peek startAddress = 0x41C0 := by
    rw [Memory.peek_set, if_pos rfl]
  have hread : r.read startAddress m () = (0x41C0, m, ()) := by
    rw [read_of_ne (by decide), hp]
  have hw : r.fetched m () = 0x41C0 := congrArg Prod.fst hread
  have hx : Executable (r.fetched m ()) := by
    rw [hw, Executable]
    decide
  have hd : Instruction.decode (r.fetched m ()) = .ok (.jsrr .r7) := by
    rw [hw]
    cbv
  obtain ⟨i, hi, hs, -⟩ := step_eq_next r.describes_console (m := m) rfl (by decide) hx
  cases hd.symm.trans hi
  have hn (m : Machine) (pc : m.regs.pc = startAddress) (count : m.cycles = 0)
      (fetch : r.read startAddress m () = (0x41C0, m, ())) :
      r.next m () =
        ({ m with regs := { m.regs.set .r7 0x3001 with pc := 0x3001 }, cycles := 1 }, ()) := by
    simp only [Replies.next, pc, fetch, Replies.row, show bits 0x41C0 12 4 = 0b0100#4 from rfl,
      show ¬ bits 0x41C0 11 1 = 1#1 by decide, show regAt 0x41C0 6 = .r7 from rfl, if_false, link,
      jump, count, Registers.get_set_self]
    rfl
  refine ⟨rfl, by decide, hx, hs, ?_⟩
  rw [hn m rfl rfl hread]
  exact ⟨rfl, rfl, Registers.get_set_self _ _ _⟩

end LittleComputer.OpcodeTable
