import RecordMill.Proofs.Machine.Encoding

/-!
# What the processor shows

A view is what matters of a processor between two instructions: AX, CX, the flags and the words of the
frame. Straight-line code acts on views.
-/

namespace RecordMill.Machine

namespace Cpu

/-! ## Words in memory -/

theorem littleEndian_eight (w : UInt64) :
    UInt64.ofNat (littleEndian [UInt8.ofNat (w.toNat >>> (8 * 0)), UInt8.ofNat (w.toNat >>> (8 * 1)),
      UInt8.ofNat (w.toNat >>> (8 * 2)), UInt8.ofNat (w.toNat >>> (8 * 3)), UInt8.ofNat (w.toNat >>> (8 * 4)),
      UInt8.ofNat (w.toNat >>> (8 * 5)), UInt8.ofNat (w.toNat >>> (8 * 6)),
        UInt8.ofNat (w.toNat >>> (8 * 7))]) = w := by
  have hw := w.toNat_lt
  have : littleEndian [UInt8.ofNat (w.toNat >>> (8 * 0)), UInt8.ofNat (w.toNat >>> (8 * 1)),
      UInt8.ofNat (w.toNat >>> (8 * 2)), UInt8.ofNat (w.toNat >>> (8 * 3)), UInt8.ofNat (w.toNat >>> (8 * 4)),
      UInt8.ofNat (w.toNat >>> (8 * 5)), UInt8.ofNat (w.toNat >>> (8 * 6)), UInt8.ofNat (w.toNat >>> (8 * 7))]
      = w.toNat := by
    simp only [littleEndian, UInt8.toNat_ofNat', Nat.shiftRight_eq_div_pow, Nat.reduceMul, Nat.reducePow]
    omega
  rw [this, UInt64.ofNat_toNat]

theorem writeWord_add (m : UInt64 → UInt8) (a w k : UInt64) (hk : k < 8) :
    writeWord m a w (a + k) = UInt8.ofNat (w.toNat >>> (8 * k.toNat)) := by
  have : a + k - a = k := by rw [UInt64.add_comm, UInt64.add_sub_cancel]
  simp only [writeWord, this, hk, if_true]

theorem readWord_writeWord (m : UInt64 → UInt8) (a w : UInt64) : readWord (writeWord m a w) a = w := by
  have h0 := writeWord_add m a w 0 (by decide)
  rw [UInt64.add_zero] at h0
  unfold readWord
  rw [h0, writeWord_add m a w 1 (by decide), writeWord_add m a w 2 (by decide), writeWord_add m a w 3 (by decide),
    writeWord_add m a w 4 (by decide), writeWord_add m a w 5 (by decide), writeWord_add m a w 6 (by decide),
    writeWord_add m a w 7 (by decide)]
  exact littleEndian_eight w

/-- The address of word `i` of a row. -/
def place (base : UInt64) (i : Nat) : UInt64 := base + 8 * UInt64.ofNat i

theorem readWord_writeWord_of_ne (m : UInt64 → UInt8) (base w : UInt64) {i j : Nat} (hi : i < 268435456)
    (hj : j < 268435456) (h : i ≠ j) :
    readWord (writeWord m (place base i) w) (place base j) = readWord m (place base j) := by
  have key : ∀ k : UInt64, k < 8 → writeWord m (place base i) w (place base j + k) = m (place base j + k) := by
    intro k hk
    have : ¬ place base j + k - place base i < 8 := by
      have hb := base.toNat_lt
      simp only [UInt64.lt_iff_toNat_lt, UInt64.reduceToNat] at hk
      simp only [place, UInt64.lt_iff_toNat_lt, UInt64.toNat_sub, UInt64.toNat_add, UInt64.toNat_mul,
        UInt64.toNat_ofNat', UInt64.reduceToNat, Nat.reducePow]
      omega
    simp only [writeWord, this, if_false]
  have h0 := key 0 (by decide)
  rw [UInt64.add_zero] at h0
  unfold readWord
  rw [h0, key 1 (by decide), key 2 (by decide), key 3 (by decide), key 4 (by decide), key 5 (by decide),
    key 6 (by decide), key 7 (by decide)]

theorem address_place (c : Cpu) (i : Nat) : c.address 7 ((i : Int) * 8) = place (c.regs 7) i := by
  have : (Int64.ofInt ((i : Int) * 8)).toUInt64 = 8 * UInt64.ofNat i := by
    apply UInt64.toNat_inj.1
    show (BitVec.ofInt 64 ((i : Int) * 8)).toNat = _
    simp only [BitVec.toNat_ofInt, UInt64.toNat_mul, UInt64.toNat_ofNat', UInt64.reduceToNat, Nat.reducePow]
    omega
  rw [address, this, place]

end Cpu

/-! ## Views -/

/-- A row of words as a function of the place. -/
structure View where
  ax : UInt64
  cx : UInt64
  flags : Option Cpu.Flags
  words : Nat → UInt64

namespace View

def setWord (v : View) (i : Nat) (w : UInt64) : View := { v with words := fun j => if j = i then w else v.words j }

def reg (v : View) : X86.Register → UInt64
  | .ax => v.ax
  | .cx => v.cx

end View

/-- The processor shows the view, as far as words below `size` go. -/
structure Cpu.Shows (c : Cpu) (size : Nat) (v : View) : Prop where
  ax : c.regs 0 = v.ax
  cx : c.regs 1 = v.cx
  flags : c.flags = v.flags
  words : ∀ i, i < size → c.word i = v.words i

namespace X86

def aluResult (x y : UInt64) : Alu → UInt64
  | .add => x + y
  | .sub => x - y
  | .imul => x * y
  | .and => x &&& y
  | .or => x ||| y
  | .xor => x ^^^ y
  | .shl => x <<< (y &&& 63)
  | .shr => x >>> (y &&& 63)
  | .sar => (x.toInt64 >>> (y &&& 63).toInt64).toUInt64

def aluFlags (x y : UInt64) : Alu → Option Cpu.Flags
  | .add => some (Cpu.addFlags x y)
  | .sub => some (Cpu.subFlags x y)
  | .and => some (Cpu.logicFlags (x &&& y))
  | .or => some (Cpu.logicFlags (x ||| y))
  | .xor => some (Cpu.logicFlags (x ^^^ y))
  | .imul | .shl | .shr | .sar => none

/-- What an instruction does to a view; `none` if it passes control on or cannot be executed. -/
def Code.act (v : View) : Code → Option View
  | .load .ax w => some { v with ax := v.words w }
  | .load .cx w => some { v with cx := v.words w }
  | .store w r => some (v.setWord w (v.reg r))
  | .moveImm imm => some { v with ax := imm }
  | .alu op => some { v with ax := aluResult v.ax v.cx op, flags := aluFlags v.ax v.cx op }
  | .neg => some { v with ax := 0 - v.ax, flags := some (Cpu.subFlags 0 v.ax) }
  | .not => some { v with ax := ~~~v.ax }
  | .cmp => some { v with flags := some (Cpu.subFlags v.ax v.cx) }
  | .setcc cond => do
    let c ← condition? cond
    let f ← v.flags
    return { v with ax := v.ax / 256 * 256 + if c.holds f then 1 else 0 }
  | .zeroExtend => some { v with ax := v.ax % 256 }
  | .lowBit => some { v with ax := v.ax &&& 1, flags := some (Cpu.logicFlags (v.ax &&& 1)) }
  | .test => some { v with flags := some (Cpu.logicFlags (v.ax &&& v.ax)) }
  | .jumpNonZero _ | .jump _ | .ret => none

def actAll : List Code → View → Option View
  | [], v => some v
  | c :: cs, v => (c.act v).bind (actAll cs)

@[simp] theorem actAll_nil (v : View) : actAll [] v = some v := rfl

@[simp] theorem actAll_cons (c : Code) (cs : List Code) (v : View) :
    actAll (c :: cs) v = (c.act v).bind (actAll cs) := rfl

theorem actAll_append (cs ds : List Code) (v : View) : actAll (cs ++ ds) v = (actAll cs v).bind (actAll ds) := by
  induction cs generalizing v with
  | nil => rfl
  | cons c cs ih =>
    simp only [List.cons_append, actAll_cons, Option.bind_assoc]
    congr 1
    funext v
    exact ih v

end X86

namespace Cpu

open X86

variable {cpu : Cpu} {size : Nat} {v v' : View} {c : Code}

theorem Shows.congr (h : cpu.Shows size v) (e : v = v') : cpu.Shows size v' := e ▸ h

theorem Shows.set_ax (h : cpu.Shows size v) (w : UInt64) : (cpu.set 0 w).Shows size { v with ax := w } where
  ax := rfl
  cx := h.cx
  flags := h.flags
  words := h.words

theorem Shows.set_cx (h : cpu.Shows size v) (w : UInt64) : (cpu.set 1 w).Shows size { v with cx := w } where
  ax := h.ax
  cx := rfl
  flags := h.flags
  words := h.words

theorem Shows.set_flags (h : cpu.Shows size v) (f : Option Flags) :
    ({ cpu with flags := f } : Cpu).Shows size { v with flags := f } where
  ax := h.ax
  cx := h.cx
  flags := rfl
  words := h.words

theorem Shows.set_ip (h : cpu.Shows size v) (ip : Nat) : ({ cpu with ip := ip } : Cpu).Shows size v where
  ax := h.ax
  cx := h.cx
  flags := h.flags
  words := h.words

theorem Shows.set_word (h : cpu.Shows size v) (hs : size ≤ 268435456) {i : Nat} (hi : i < size) (w : UInt64) :
    ({ cpu with memory := writeWord cpu.memory (place (cpu.regs 7) i) w } : Cpu).Shows size (v.setWord i w) where
  ax := h.ax
  cx := h.cx
  flags := h.flags
  words j hj := by
    show readWord (writeWord cpu.memory (place (cpu.regs 7) i) w) (place (cpu.regs 7) j)
      = if j = i then w else v.words j
    split
    · next e => rw [e, readWord_writeWord]
    · next e =>
      rw [readWord_writeWord_of_ne _ _ _ (by omega) (by omega) (Ne.symm e)]
      exact h.words j hj

theorem Shows.execute {jumpBy : BlockId → Int} {i : Instr} (h : cpu.Shows size v) (hs : size ≤ 268435456)
    (hn : c.Near size) (hi : c.instr? jumpBy = some i) (hv : c.act v = some v') :
    ∃ cpu', cpu.execute i = some (.next cpu') ∧ cpu'.Shows size v' ∧ cpu'.ip = cpu.ip ∧ cpu'.regs 7 = cpu.regs 7 := by
  cases c with
  | load r w =>
    obtain rfl := Option.some.inj hi
    have hw : readWord cpu.memory (cpu.address 7 ((w : Int) * 8)) = v.words w := by
      rw [address_place]
      exact h.words w hn
    cases r with
    | ax =>
      obtain rfl := Option.some.inj hv
      exact ⟨_, rfl, hw ▸ h.set_ax _, rfl, rfl⟩
    | cx =>
      obtain rfl := Option.some.inj hv
      exact ⟨_, rfl, hw ▸ h.set_cx _, rfl, rfl⟩
  | store w r =>
    obtain rfl := Option.some.inj hi
    obtain rfl := Option.some.inj hv
    have hr : cpu.regs r.number = v.reg r := by
      cases r with
      | ax => exact h.ax
      | cx => exact h.cx
    refine ⟨_, rfl, ?_, rfl, rfl⟩
    rw [address_place, hr]
    exact h.set_word hs hn _
  | moveImm imm =>
    obtain rfl := Option.some.inj hi
    obtain rfl := Option.some.inj hv
    exact ⟨_, rfl, h.set_ax _, rfl, rfl⟩
  | alu op =>
    obtain rfl := Option.some.inj hi
    obtain rfl := Option.some.inj hv
    cases op <;> exact ⟨_, rfl, ((h.set_ax _).set_flags _).congr (by rw [h.ax, h.cx]; rfl), rfl, rfl⟩
  | neg =>
    obtain rfl := Option.some.inj hi
    obtain rfl := Option.some.inj hv
    rw [← h.ax]
    exact ⟨_, rfl, (h.set_ax _).set_flags _, rfl, rfl⟩
  | not =>
    obtain rfl := Option.some.inj hi
    obtain rfl := Option.some.inj hv
    rw [← h.ax]
    exact ⟨_, rfl, h.set_ax _, rfl, rfl⟩
  | cmp =>
    obtain rfl := Option.some.inj hi
    obtain rfl := Option.some.inj hv
    exact ⟨_, rfl, (h.set_flags _).congr (by rw [h.ax, h.cx]), rfl, rfl⟩
  | setcc cond =>
    obtain ⟨k, hk, rfl⟩ := Option.map_eq_some_iff.1 hi
    obtain ⟨f, hf, hv⟩ : ∃ f, v.flags = some f
        ∧ { v with ax := v.ax / 256 * 256 + if k.holds f then 1 else 0 } = v' := by
      simpa [Code.act, hk, Option.bind_eq_some_iff] using hv
    subst hv
    rw [← h.ax]
    exact ⟨_, by rw [Cpu.execute, h.flags, hf]; rfl, h.set_ax _, rfl, rfl⟩
  | zeroExtend =>
    obtain rfl := Option.some.inj hi
    obtain rfl := Option.some.inj hv
    rw [← h.ax]
    exact ⟨_, rfl, h.set_ax _, rfl, rfl⟩
  | lowBit =>
    obtain rfl := Option.some.inj hi
    obtain rfl := Option.some.inj hv
    rw [← h.ax]
    exact ⟨_, rfl, (h.set_ax _).set_flags _, rfl, rfl⟩
  | test =>
    obtain rfl := Option.some.inj hi
    obtain rfl := Option.some.inj hv
    exact ⟨_, rfl, (h.set_flags _).congr (by rw [h.ax]), rfl, rfl⟩
  | jumpNonZero b => cases hv
  | jump b => cases hv
  | ret => cases hv

theorem exists_instr (hv : c.act v = some v') (jumpBy : BlockId → Int) : ∃ i, c.instr? jumpBy = some i := by
  cases c with
  | setcc cond =>
    obtain ⟨k, hk, -⟩ := Option.bind_eq_some_iff.1 hv
    exact ⟨.setByte k 0, by rw [Code.instr?, hk]; rfl⟩
  | jumpNonZero b => cases hv
  | jump b => cases hv
  | ret => cases hv
  | _ => exact ⟨_, rfl⟩

theorem reaches_of_act (hv : c.act v = some v') (jumpBy : BlockId → Int) : c.Reaches jumpBy := by
  cases c with
  | jumpNonZero b => cases hv
  | jump b => cases hv
  | _ => trivial

theorem Shows.run {blocks : List (List Code)} {ip : Nat} {cs ds : List Code} (h : cpu.Shows size v)
    (hs : size ≤ 268435456) (hb : Begins blocks ip (cs ++ ds)) (hip : cpu.ip = ip) (hn : ∀ c ∈ cs, c.Near size)
    (ha : actAll cs v = some v') :
    ∃ cpu', Cpu.run (encode blocks) cs.length cpu = some (.next cpu') ∧ cpu'.Shows size v'
      ∧ cpu'.ip = ip + X86.size cs ∧ cpu'.regs 7 = cpu.regs 7 := by
  induction cs generalizing cpu v ip with
  | nil =>
    obtain rfl := Option.some.inj ha
    exact ⟨cpu, rfl, h, hip, rfl⟩
  | cons c cs ih =>
    obtain ⟨v₁, hc, hcs⟩ := Option.bind_eq_some_iff.1 ha
    obtain ⟨i, hi⟩ := exists_instr hc (distance blocks (ip + c.size))
    have hnc := hn c (by simp)
    have hnear : c.Near 268435456 := by
      cases c with
      | load r w => exact Nat.lt_of_lt_of_le hnc hs
      | store w r => exact Nat.lt_of_lt_of_le hnc hs
      | _ => trivial
    have hstep := hb.step hip hnear (reaches_of_act hc _) hi
    obtain ⟨cpu₁, he, h₁, hip₁, hdi₁⟩ := (h.set_ip (ip + c.size)).execute hs hnc hi hc
    obtain ⟨cpu₂, hr, h₂, hip₂, hdi₂⟩ :=
      ih h₁ hb.tail hip₁ (fun c hc => hn c (by simp [hc])) hcs
    refine ⟨cpu₂, ?_, h₂, ?_, hdi₂.trans hdi₁⟩
    · rw [List.length_cons, Cpu.run, hstep, he]
      exact hr
    · rw [hip₂]
      simp [X86.size, Nat.add_assoc]

end Cpu

end RecordMill.Machine
