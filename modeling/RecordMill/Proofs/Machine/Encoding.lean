import RecordMill.Proofs.Machine.Cpu

/-!
# The bytes decode to the code

Every instruction form comes back from its bytes, so that the processor at the start of an instruction
of an encoded program executes that instruction.
-/

namespace RecordMill.Machine.X86

open Cpu (decode littleEndian signed32)

/-! ## Numbers -/

theorem littleEndian_bytes32 (n : Int) : (littleEndian (bytes32 n) : Int) = n % 4294967296 := by
  simp only [bytes32, littleEndian, Nat.toUInt8, UInt8.toNat_ofNat']
  omega

theorem signed32_bytes32 {n : Int} (hlo : -2147483648 ≤ n) (hhi : n < 2147483648) : signed32 (bytes32 n) = n := by
  have := littleEndian_bytes32 n
  unfold signed32
  simp only
  split <;> omega

theorem bytes64_eq (w : UInt64) : bytes64 w = [w.toUInt8, (w >>> 8).toUInt8, (w >>> 16).toUInt8, (w >>> 24).toUInt8,
    (w >>> 32).toUInt8, (w >>> 40).toUInt8, (w >>> 48).toUInt8, (w >>> 56).toUInt8] := by
  unfold bytes64
  simp only [List.range, List.range.loop, List.map]
  rfl

theorem littleEndian_bytes64 (w : UInt64) : littleEndian (bytes64 w) = w.toNat := by
  have := w.toNat_lt
  rw [bytes64_eq]
  simp only [littleEndian, UInt64.toNat_toUInt8, UInt64.toNat_shiftRight, Nat.shiftRight_eq_div_pow, UInt64.reduceToNat,
    Nat.reduceMod, Nat.reducePow]
  omega

/-! ## Instructions -/

def Register.number : Register → Nat
  | .ax => 0
  | .cx => 1

def Alu.instr : Alu → Cpu.Instr
  | .add => .binary .add 0 1
  | .sub => .binary .sub 0 1
  | .imul => .binary .imul 0 1
  | .and => .binary .and 0 1
  | .or => .binary .or 0 1
  | .xor => .binary .xor 0 1
  | .shl => .shiftByCount .shl 0
  | .shr => .shiftByCount .shr 0
  | .sar => .shiftByCount .sar 0

/-- The condition behind the second byte of a comparison's outcome. -/
def condition? : UInt8 → Option Cpu.Condition
  | 0x94 => some .equal
  | 0x95 => some .notEqual
  | 0x9C => some .less
  | 0x9D => some .notLess
  | 0x9E => some .notGreater
  | 0x9F => some .greater
  | _ => none

/-- The instruction that the processor sees; `none` for a condition that does not exist. -/
def Code.instr? (jumpBy : BlockId → Int) : Code → Option Cpu.Instr
  | .load r w => some (.load r.number 7 (w * 8))
  | .store w r => some (.store 7 (w * 8) r.number)
  | .moveImm imm => some (.moveImm 0 imm)
  | .alu op => some op.instr
  | .neg => some (.neg 0)
  | .not => some (.not 0)
  | .cmp => some (.binary .cmp 0 1)
  | .setcc c => (condition? c).map (.setByte · 0)
  | .zeroExtend => some (.zeroExtend 0 0)
  | .lowBit => some (.andImm 0 1)
  | .test => some (.binary .test 0 0)
  | .jumpNonZero b => some (.jumpIf .notEqual (jumpBy b))
  | .jump b => some (.jump (jumpBy b))
  | .ret => some .ret

/-- The words that an instruction names have addresses of 32 bits. -/
def Code.Near (size : Nat) : Code → Prop
  | .load _ w | .store w _ => w < size
  | _ => True

/-- The blocks that an instruction names are less than 2 GiB away. -/
def Code.Reaches (jumpBy : BlockId → Int) : Code → Prop
  | .jumpNonZero b | .jump b => -2147483648 ≤ jumpBy b ∧ jumpBy b < 2147483648
  | _ => True

theorem memory?_operand {r : Register} {w : Nat} (hw : w < 268435456) (rest : Bytes) :
    Cpu.memory? (operand r w ++ rest) = some (r.number, 7, (w : Int) * 8) := by
  rw [← signed32_bytes32 (n := (w : Int) * 8) (by omega) (by omega)]
  cases r <;> rfl

theorem setcc_bytes {cond : UInt8} {c : Cpu.Condition} (h : condition? cond = some c) (rest : Bytes) :
    decode (0x0F :: cond :: 0xC0 :: rest) = some (.setByte c 0, 3) := by
  unfold condition? at h
  split at h
  case h_7 => cases h
  all_goals
    obtain rfl := Option.some.inj h
    rfl

theorem decode_bytes {c : Code} {jumpBy : BlockId → Int} {i : Cpu.Instr} (rest : Bytes) (hn : c.Near 268435456)
    (hr : c.Reaches jumpBy) (hi : c.instr? jumpBy = some i) :
    decode (c.bytes jumpBy ++ rest) = some (i, c.size) := by
  cases c with
  | load r w =>
    obtain rfl := Option.some.inj hi
    show (Cpu.memory? (operand r w ++ rest)).map _ = _
    rw [memory?_operand hn]
    rfl
  | store w r =>
    obtain rfl := Option.some.inj hi
    show (Cpu.memory? (operand r w ++ rest)).map _ = _
    rw [memory?_operand hn]
    rfl
  | moveImm imm =>
    obtain rfl := Option.some.inj hi
    show some (Cpu.Instr.moveImm 0 (UInt64.ofNat (littleEndian (bytes64 imm))), 10) = _
    rw [littleEndian_bytes64, UInt64.ofNat_toNat]
    rfl
  | alu op =>
    obtain rfl := Option.some.inj hi
    cases op <;> rfl
  | neg | not | cmp | zeroExtend | lowBit | test | ret =>
    obtain rfl := Option.some.inj hi
    rfl
  | setcc cond =>
    obtain ⟨c, hc, rfl⟩ := Option.map_eq_some_iff.1 hi
    exact setcc_bytes hc rest
  | jumpNonZero b =>
    obtain rfl := Option.some.inj hi
    show some (Cpu.Instr.jumpIf .notEqual (signed32 (bytes32 (jumpBy b))), 6) = _
    rw [signed32_bytes32 hr.1 hr.2]
    rfl
  | jump b =>
    obtain rfl := Option.some.inj hi
    show some (Cpu.Instr.jump (signed32 (bytes32 (jumpBy b))), 5) = _
    rw [signed32_bytes32 hr.1 hr.2]
    rfl

/-! ## Places -/

@[simp] theorem length_bytes (c : Code) (jumpBy : BlockId → Int) : (c.bytes jumpBy).length = c.size := by
  cases c <;> rfl

@[simp] theorem length_encodeFrom (st : Array Nat) (at_ : Nat) (cs : List Code) :
    (encodeFrom st at_ cs).length = size cs := by
  induction cs generalizing at_ with
  | nil => rfl
  | cons c cs ih => simp [encodeFrom, size, ih]

theorem size_append (cs ds : List Code) : size (cs ++ ds) = size cs + size ds := by
  induction cs with
  | nil => simp [size]
  | cons c cs ih =>
    simp only [size, List.cons_append, List.foldr_cons] at ih ⊢
    omega

theorem encodeFrom_append (st : Array Nat) (at_ : Nat) (cs ds : List Code) :
    encodeFrom st at_ (cs ++ ds) = encodeFrom st at_ cs ++ encodeFrom st (at_ + size cs) ds := by
  induction cs generalizing at_ with
  | nil => simp [encodeFrom, size]
  | cons c cs ih =>
    have : at_ + size (c :: cs) = at_ + c.size + size cs := (Nat.add_assoc _ _ _).symm
    simp only [List.cons_append, encodeFrom, ih, List.append_assoc, this]

theorem starts_getElem? (at_ : Nat) (blocks : List (List Code)) (b : Nat) :
    (starts at_ blocks)[b]? = (blocks[b]?).map fun _ => at_ + size (blocks.take b).flatten := by
  induction blocks generalizing at_ b with
  | nil => simp [starts]
  | cons x xs ih =>
    cases b with
    | zero => simp [starts, size]
    | succ b => simp [starts, ih, size_append, Nat.add_assoc]

/-- The place `ip` of the encoded blocks is where the instructions `cs` begin. -/
def Begins (blocks : List (List Code)) (ip : Nat) (cs : List Code) : Prop :=
  ∃ before after, blocks.flatten = before ++ (cs ++ after) ∧ ip = size before

variable {blocks : List (List Code)} {ip : Nat} {c : Code} {cs ds : List Code}

def distance (blocks : List (List Code)) (ip : Nat) (b : BlockId) : Int :=
  ((starts 0 blocks).toArray.getD b 0 : Int) - ip

theorem Begins.left (h : Begins blocks ip (cs ++ ds)) : Begins blocks ip cs := by
  obtain ⟨before, after, hf, hip⟩ := h
  exact ⟨before, ds ++ after, by simpa using hf, hip⟩

theorem Begins.right (h : Begins blocks ip (cs ++ ds)) : Begins blocks (ip + size cs) ds := by
  obtain ⟨before, after, hf, hip⟩ := h
  exact ⟨before ++ cs, after, by simpa using hf, by rw [hip, size_append]⟩

theorem Begins.length_le (h : Begins blocks ip cs) : ip + size cs ≤ (encode blocks).length := by
  obtain ⟨before, after, hf, hip⟩ := h
  simp only [encode, length_encodeFrom, hf, size_append, hip]
  omega

theorem Begins.head_le (h : Begins blocks ip (c :: cs)) : ip + c.size ≤ (encode blocks).length := by
  have := h.length_le
  simp only [size, List.foldr_cons] at this
  omega

theorem Begins.tail (h : Begins blocks ip (c :: cs)) : Begins blocks (ip + c.size) cs := by
  have h : Begins blocks ip ([c] ++ cs) := h
  exact h.right

theorem begins_block {b : Nat} (h : blocks[b]? = some cs) :
    ∃ ip, Begins blocks ip cs ∧ (starts 0 blocks).toArray.getD b 0 = ip := by
  refine ⟨size (blocks.take b).flatten, ⟨(blocks.take b).flatten, (blocks.drop (b + 1)).flatten, ?_, rfl⟩, ?_⟩
  · obtain ⟨hb, rfl⟩ := List.getElem?_eq_some_iff.1 h
    rw [← List.flatten_cons, List.getElem_cons_drop, ← List.flatten_append, List.take_append_drop]
  · rw [Array.getD_eq_getD_getElem?, List.getElem?_toArray, starts_getElem?, h]
    simp

theorem Begins.step {cpu : Cpu} {i : Cpu.Instr} (h : Begins blocks ip (c :: cs)) (hip : cpu.ip = ip)
    (hn : c.Near 268435456) (hr : c.Reaches (distance blocks (ip + c.size)))
    (hi : c.instr? (distance blocks (ip + c.size)) = some i) :
    Cpu.step (encode blocks) cpu = Cpu.execute { cpu with ip := ip + c.size } i := by
  obtain ⟨before, after, hf, rfl⟩ := h
  have hd : (encode blocks).drop (size before)
      = c.bytes (distance blocks (size before + c.size))
        ++ encodeFrom (starts 0 blocks).toArray (size before + c.size) (cs ++ after) := by
    unfold encode
    rw [hf, encodeFrom_append, Nat.zero_add, List.cons_append, List.drop_append, length_encodeFrom, Nat.sub_self,
      List.drop_eq_nil_of_le (by simp), List.nil_append, List.drop_zero]
    rfl
  unfold Cpu.step
  rw [hip, hd, decode_bytes _ hn hr hi]
  rfl

end RecordMill.Machine.X86
