import Intcode.Proofs.Machine.Course
import Intcode.Proofs.Machine.Session
import Intcode.Proofs.Store.Access

/-!
The effect of a step that succeeds, told part by part from the machine before the step: which cell
changes and to what, what the queues lose and gain, how the base moves, and where the program goes
on. What the instruction does not ask for is left as it was, and it makes no difference whether the
step writes over the instruction that it carries out.
-/
namespace Intcode

namespace Word

/-- The sum of the numbers, less a multiple of two to the power 64. -/
def IsSum (a b sum : Word) : Prop := sum.toInt = (a.toInt + b.toInt).bmod (2 ^ 64)

theorem isSum_iff {a b sum : Word} : IsSum a b sum ↔ sum = a + b := by
  rw [IsSum, ← Int64.toInt_add, Int64.toInt_inj]

theorem toInt_eq_ite_iff {word : Word} {p : Prop} [Decidable p] :
    (word.toInt = if p then 1 else 0) ↔ word = if p then 1 else 0 := by
  split
  · exact Int64.toInt_inj (y := 1)
  · exact Int64.toInt_inj (y := 0)

/-- A cell has one address. -/
theorem eq_of_cell_eq {address other : Word} {cell : Nat} (h : address.cell = .ok cell)
    (hother : other.cell = .ok cell) : other = address := by
  by_cases hneg : address < 0
  · cases (cell_of_neg hneg).symm.trans h
  · by_cases hneg' : other < 0
    · cases (cell_of_neg hneg').symm.trans hother
    · cases (cell_of_not_neg hneg).symm.trans h
      have hcell := Except.ok.inj ((cell_of_not_neg hneg').symm.trans hother)
      exact (toNat_toInt_inj hneg' hneg).mp hcell

end Word

/-- The word that two operands are combined into, told of the numbers that they stand for. -/
def Combination.Yields : Combination → Word → Word → Word → Prop
  | .add, a, b, word => Word.IsSum a b word
  | .multiply, a, b, word => word.toInt = (a.toInt * b.toInt).bmod (2 ^ 64)
  | .lessThan, a, b, word => word.toInt = if a.toInt < b.toInt then 1 else 0
  | .equals, a, b, word => word.toInt = if a.toInt = b.toInt then 1 else 0

theorem Combination.yields_iff {combination : Combination} {a b word : Word} :
    combination.Yields a b word ↔ word = combination.apply a b := by
  cases combination with
  | add => exact Word.isSum_iff
  | multiply => rw [Yields, apply, ← Int64.toInt_mul, Int64.toInt_inj]
  | lessThan => simp only [Yields, apply, Word.toInt_eq_ite_iff, Int64.lt_iff_toInt_lt]
  | equals => simp only [Yields, apply, Word.toInt_eq_ite_iff, Int64.toInt_inj]

/-- Whether a jump on the condition is taken. -/
def Condition.IsMet : Condition → Word → Prop
  | .nonzero, word => word.toInt ≠ 0
  | .zero, word => word.toInt = 0

theorem Condition.holds_iff {condition : Condition} {word : Word} :
    condition.holds word ↔ condition.IsMet word := by
  have hzero : word.toInt = 0 ↔ word = 0 := by rw [← Int64.toInt_zero, Int64.toInt_inj]
  cases condition with
  | nonzero => rw [holds, bne_iff_ne, IsMet, ne_eq, ne_eq, hzero]
  | zero => rw [holds, beq_iff_eq, IsMet, hzero]

namespace Parameter

/-- The address that a parameter refers to. There is none in immediate mode. -/
inductive RefersTo (base : Word) : Parameter → Word → Prop
  | position (raw : Word) : RefersTo base ⟨.position, raw⟩ raw
  | relative {raw address : Word} (hsum : Word.IsSum base raw address) :
      RefersTo base ⟨.relative, raw⟩ address

theorem refersTo_iff {parameter : Parameter} {base address : Word} :
    parameter.RefersTo base address ↔ parameter.address? base = some address := by
  obtain ⟨mode, raw⟩ := parameter
  constructor
  · intro h
    cases h with
    | position => rfl
    | relative hsum => rw [Word.isSum_iff.mp hsum, address?]
  · intro h
    cases mode with
    | position =>
      cases h
      exact .position raw
    | immediate => cases h
    | relative =>
      cases h
      exact .relative (Word.isSum_iff.mpr rfl)

theorem RefersTo.unique {parameter : Parameter} {base address other : Word}
    (h : parameter.RefersTo base address) (h' : parameter.RefersTo base other) :
    address = other :=
  Option.some.inj ((refersTo_iff.mp h).symm.trans (refersTo_iff.mp h'))

theorem exists_of_target {processor : Processor} {instruction : Instruction}
    {parameter : Parameter} {cell : Nat} (h : processor.target instruction parameter = .ok cell) :
    ∃ address, parameter.RefersTo processor.base address ∧ address.cell = .ok cell := by
  rw [Processor.target] at h
  cases haddress : parameter.address? processor.base with
  | none =>
    rw [haddress] at h
    cases h
  | some address =>
    rw [haddress] at h
    exact ⟨address, refersTo_iff.mpr haddress, h⟩

end Parameter

namespace Instruction

variable {instruction : Instruction} {action : Action}

theorem opcode_of_action (h : instruction.action = action) : instruction.opcode = action.opcode :=
  congrArg Action.opcode h

theorem parameters_of_action (h : instruction.action = action) :
    instruction.parameters = action.parameters :=
  congrArg Action.parameters h

theorem toInt_length (instruction : Instruction) :
    (Int64.ofNat instruction.length).toInt = instruction.length := by
  apply Int64.toInt_ofNat_of_lt
  unfold length parameters
  cases instruction.action <;> simp only [Action.parameters, List.length] <;> omega

end Instruction

theorem Processor.toInt_advance (processor : Processor) (instruction : Instruction) :
    (processor.advance instruction).pc.toInt =
      (processor.pc.toInt + instruction.length).bmod (2 ^ 64) := by
  rw [advance, Int64.toInt_add, instruction.toInt_length]

namespace Store

variable {σ : Type} [Store σ] [LawfulStore σ] {address other : Word} {cell : Nat}

theorem read_write (h : address.cell = .ok cell) (store : σ) (value : Word) :
    read (write store cell value) address = .ok value := by
  rw [read, LawfulStore.memory_write, Memory.read, h]
  exact congrArg Except.ok (if_pos rfl)

theorem read_write_of_ne (h : address.cell = .ok cell) (hother : other ≠ address) (store : σ)
    (value : Word) : read (write store cell value) other = read store other := by
  rw [read, LawfulStore.memory_write, Memory.read, read, Memory.read]
  cases hcell : other.cell with
  | error fault => rfl
  | ok cell' =>
    have hne : cell' ≠ cell := by
      rintro rfl
      exact hother (Word.eq_of_cell_eq h hcell)
    exact congrArg Except.ok (if_neg hne)

end Store

namespace Machine

variable {σ : Type}

/-- The instruction writes to a cell. One that takes an input in does so if there is an input. -/
def Writes (machine : Machine σ) (instruction : Instruction) : Prop :=
  (∃ combination, instruction.opcode = .combine combination) ∨
    instruction.opcode = .input ∧ machine.input ≠ []

/-- The instruction does not move the program counter: it halts or waits. -/
def Stays (machine : Machine σ) (instruction : Instruction) : Prop :=
  instruction.opcode = .halt ∨ instruction.opcode = .input ∧ machine.input = []

theorem not_stays {machine : Machine σ} {instruction : Instruction}
    (hhalt : instruction.opcode ≠ .halt) (hinput : instruction.opcode ≠ .input) :
    ¬machine.Stays instruction := by
  rintro (hopcode | ⟨hopcode, _⟩)
  · exact hhalt hopcode
  · exact hinput hopcode

variable [Store σ]

/-- What a parameter comes to as an operand: itself in immediate mode, otherwise the word that is
read where it refers to. -/
inductive Operand (machine : Machine σ) : Parameter → Word → Prop
  | immediate (raw : Word) : Operand machine ⟨.immediate, raw⟩ raw
  | read {parameter : Parameter} {address word : Word}
      (hrefers : parameter.RefersTo machine.base address)
      (hread : machine.read address = .ok word) : Operand machine parameter word

/-- The word that the instruction writes. -/
inductive Computes (machine : Machine σ) (instruction : Instruction) : Word → Prop
  | combined {combination : Combination} {left right target : Parameter} {a b word : Word}
      (hopcode : instruction.opcode = .combine combination)
      (hparameters : instruction.parameters = [left, right, target])
      (hleft : machine.Operand left a) (hright : machine.Operand right b)
      (hword : combination.Yields a b word) : Computes machine instruction word
  | received {word : Word} {rest : List Word} (hopcode : instruction.opcode = .input)
      (hinput : machine.input = word :: rest) : Computes machine instruction word

/-- The instruction is a jump whose condition is met by its first operand. -/
def TakesJump (machine : Machine σ) (instruction : Instruction) : Prop :=
  ∃ condition subject word, instruction.opcode = .jump condition ∧
    instruction.parameters[0]? = some subject ∧ machine.Operand subject word ∧
      condition.IsMet word

/-- What is read after the instruction: at one address the word that it writes, if it writes, and
everywhere else what was read before. -/
def ReadsAfter (machine : Machine σ) (instruction : Instruction)
    (read : Word → Except Fault Word) : Prop :=
  (machine.Writes instruction ∧ ∃ target address word,
    instruction.parameters.getLast? = some target ∧ target.RefersTo machine.base address ∧
      machine.Computes instruction word ∧ read address = .ok word ∧
      ∀ other, other ≠ address → read other = machine.read other) ∨
  (¬machine.Writes instruction ∧ ∀ address, read address = machine.read address)

def inputAfter (machine : Machine σ) (instruction : Instruction) : List Word :=
  if instruction.opcode = .input then machine.input.tail else machine.input

def OutputAfter (machine : Machine σ) (instruction : Instruction) (output : List Word) : Prop :=
  (instruction.opcode = .output ∧ ∃ source word, instruction.parameters = [source] ∧
    machine.Operand source word ∧ output = machine.output ++ [word]) ∨
  (instruction.opcode ≠ .output ∧ output = machine.output)

def BaseAfter (machine : Machine σ) (instruction : Instruction) (base : Word) : Prop :=
  (instruction.opcode = .adjustBase ∧ ∃ offset distance, instruction.parameters = [offset] ∧
    machine.Operand offset distance ∧ Word.IsSum machine.base distance base) ∨
  (instruction.opcode ≠ .adjustBase ∧ base = machine.base)

/-- Where the program goes on: here, at the second operand of a jump, or behind the instruction. -/
def PcAfter (machine : Machine σ) (instruction : Instruction) (pc : Word) : Prop :=
  (machine.Stays instruction ∧ pc = machine.pc) ∨
  (machine.TakesJump instruction ∧ ∃ destination,
    instruction.parameters[1]? = some destination ∧ machine.Operand destination pc) ∨
  (¬machine.Stays instruction ∧ ¬machine.TakesJump instruction ∧
    pc.toInt = (machine.pc.toInt + instruction.length).bmod (2 ^ 64))

def statusAfter (machine : Machine σ) (instruction : Instruction) : Status :=
  match instruction.opcode with
  | .input => if machine.input = [] then .awaitingInput else .ready
  | .output => .afterOutput
  | .halt => .halted
  | .combine _ | .jump _ | .adjustBase => .ready

/-- The machine afterwards has been changed by this one instruction, and in no other way. -/
structure Effect (machine : Machine σ) (instruction : Instruction) (after : Machine σ) : Prop where
  reads : machine.ReadsAfter instruction after.read
  input_eq : after.input = machine.inputAfter instruction
  output : machine.OutputAfter instruction after.output
  base : machine.BaseAfter instruction after.base
  pc : machine.PcAfter instruction after.pc
  status_eq : after.status = machine.statusAfter instruction

theorem operand_iff {machine : Machine σ} {parameter : Parameter} {word : Word} :
    machine.Operand parameter word ↔
      parameter.value machine.base machine.memory = .ok word := by
  constructor
  · intro h
    cases h with
    | immediate => rfl
    | read hrefers hread =>
      rw [Parameter.value, Parameter.refersTo_iff.mp hrefers]
      exact hread
  · intro h
    rw [Parameter.value] at h
    cases haddress : parameter.address? machine.base with
    | some address =>
      rw [haddress] at h
      exact .read (Parameter.refersTo_iff.mpr haddress) h
    | none =>
      rw [haddress] at h
      cases h
      obtain ⟨mode, raw⟩ := parameter
      cases mode with
      | immediate => exact .immediate raw
      | position | relative => cases haddress

theorem Operand.unique {machine : Machine σ} {parameter : Parameter} {word other : Word}
    (h : machine.Operand parameter word) (h' : machine.Operand parameter other) : word = other :=
  Except.ok.inj ((operand_iff.mp h).symm.trans (operand_iff.mp h'))

theorem not_takesJump {machine : Machine σ} {instruction : Instruction}
    (h : ∀ condition, instruction.opcode ≠ .jump condition) : ¬machine.TakesJump instruction := by
  rintro ⟨condition, _, _, hopcode, _⟩
  exact h condition hopcode

theorem takesJump_iff {machine : Machine σ} {instruction : Instruction} {condition : Condition}
    {subject destination : Parameter} {word : Word}
    (haction : instruction.action = .jump condition subject destination)
    (hsubject : machine.Operand subject word) :
    machine.TakesJump instruction ↔ condition.IsMet word := by
  have hopcode : instruction.opcode = .jump condition := Instruction.opcode_of_action haction
  have hfirst : instruction.parameters[0]? = some subject := by
    rw [Instruction.parameters_of_action haction]
    rfl
  constructor
  · rintro ⟨condition', subject', word', hopcode', hfirst', hsubject', hmet⟩
    cases hopcode.symm.trans hopcode'
    cases hfirst.symm.trans hfirst'
    rwa [hsubject.unique hsubject']
  · intro hmet
    exact ⟨condition, subject, word, hopcode, hfirst, hsubject, hmet⟩

section Uniqueness

variable {machine : Machine σ} {instruction : Instruction}

theorem Computes.unique {word other : Word} (h : machine.Computes instruction word)
    (h' : machine.Computes instruction other) : word = other := by
  cases h with
  | combined hopcode hparameters hleft hright hword =>
    cases h' with
    | combined hopcode' hparameters' hleft' hright' hword' =>
      cases hopcode.symm.trans hopcode'
      cases hparameters.symm.trans hparameters'
      cases hleft.unique hleft'
      cases hright.unique hright'
      exact (Combination.yields_iff.mp hword).trans (Combination.yields_iff.mp hword').symm
    | received hopcode' => cases hopcode.symm.trans hopcode'
  | received hopcode hinput =>
    cases h' with
    | combined hopcode' => cases hopcode.symm.trans hopcode'
    | received _ hinput' =>
      cases hinput.symm.trans hinput'
      rfl

theorem ReadsAfter.unique {read read' : Word → Except Fault Word}
    (h : machine.ReadsAfter instruction read) (h' : machine.ReadsAfter instruction read') :
    read = read' := by
  funext other
  rcases h with ⟨hwrites, target, address, word, hlast, hrefers, hcomputes, hread, hkept⟩ |
    ⟨hnot, hkept⟩
  · rcases h' with ⟨_, target', address', word', hlast', hrefers', hcomputes', hread', hkept'⟩ |
      ⟨hnot', _⟩
    · cases hlast.symm.trans hlast'
      cases hrefers.unique hrefers'
      cases hcomputes.unique hcomputes'
      by_cases hother : other = address
      · rw [hother, hread, hread']
      · rw [hkept other hother, hkept' other hother]
    · exact absurd hwrites hnot'
  · rcases h' with ⟨hwrites', _⟩ | ⟨_, hkept'⟩
    · exact absurd hwrites' hnot
    · rw [hkept, hkept']

theorem OutputAfter.unique {output output' : List Word}
    (h : machine.OutputAfter instruction output) (h' : machine.OutputAfter instruction output') :
    output = output' := by
  rcases h with ⟨hopcode, source, word, hparameters, hsource, rfl⟩ | ⟨hopcode, rfl⟩
  · rcases h' with ⟨_, source', word', hparameters', hsource', rfl⟩ | ⟨hopcode', _⟩
    · cases hparameters.symm.trans hparameters'
      rw [hsource.unique hsource']
    · exact absurd hopcode hopcode'
  · rcases h' with ⟨hopcode', _⟩ | ⟨_, rfl⟩
    · exact absurd hopcode' hopcode
    · rfl

theorem BaseAfter.unique {base base' : Word} (h : machine.BaseAfter instruction base)
    (h' : machine.BaseAfter instruction base') : base = base' := by
  rcases h with ⟨hopcode, offset, distance, hparameters, hoffset, hsum⟩ | ⟨hopcode, rfl⟩
  · rcases h' with ⟨_, offset', distance', hparameters', hoffset', hsum'⟩ | ⟨hopcode', _⟩
    · cases hparameters.symm.trans hparameters'
      cases hoffset.unique hoffset'
      exact (Word.isSum_iff.mp hsum).trans (Word.isSum_iff.mp hsum').symm
    · exact absurd hopcode hopcode'
  · rcases h' with ⟨hopcode', _⟩ | ⟨_, rfl⟩
    · exact absurd hopcode' hopcode
    · rfl

theorem TakesJump.not_stays (h : machine.TakesJump instruction) : ¬machine.Stays instruction := by
  obtain ⟨condition, _, _, hopcode, _⟩ := h
  rintro (hhalt | ⟨hinput, _⟩)
  · cases hopcode.symm.trans hhalt
  · cases hopcode.symm.trans hinput

theorem PcAfter.unique {pc pc' : Word} (h : machine.PcAfter instruction pc)
    (h' : machine.PcAfter instruction pc') : pc = pc' := by
  rcases h with ⟨hstays, rfl⟩ | ⟨htakes, destination, hsecond, hdestination⟩ |
    ⟨hmoves, hnot, hvalue⟩
  · rcases h' with ⟨_, rfl⟩ | ⟨htakes', _⟩ | ⟨hmoves', _⟩
    · rfl
    · exact absurd hstays htakes'.not_stays
    · exact absurd hstays hmoves'
  · rcases h' with ⟨hstays', _⟩ | ⟨_, destination', hsecond', hdestination'⟩ | ⟨_, hnot', _⟩
    · exact absurd hstays' htakes.not_stays
    · cases hsecond.symm.trans hsecond'
      exact hdestination.unique hdestination'
    · exact absurd htakes hnot'
  · rcases h' with ⟨hstays', _⟩ | ⟨htakes', _⟩ | ⟨_, _, hvalue'⟩
    · exact absurd hstays' hmoves
    · exact absurd htakes' hnot
    · exact Int64.toInt_inj.mp (hvalue.trans hvalue'.symm)

/-- The effect leaves nothing open but the layout of the store. -/
theorem Effect.alike {after other : Machine σ} (h : machine.Effect instruction after)
    (h' : machine.Effect instruction other) : after.Alike other := by
  refine ⟨?_, congrFun (h.reads.unique h'.reads)⟩
  have hpc := h.pc.unique h'.pc
  have hbase := h.base.unique h'.base
  have hstatus := h.status_eq.trans h'.status_eq.symm
  have hinput := h.input_eq.trans h'.input_eq.symm
  have houtput := h.output.unique h'.output
  obtain ⟨⟨_, _, _, _, _⟩, _⟩ := after
  obtain ⟨⟨_, _, _, _, _⟩, _⟩ := other
  cases hpc
  cases hbase
  cases hstatus
  cases hinput
  cases houtput
  rfl

end Uniqueness

section Parts

variable {machine : Machine σ} {instruction : Instruction} {move : Move}
  (h : machine.Executes machine.memory instruction move)

include h

theorem input_of_executes : move.processor.input = machine.inputAfter instruction := by
  unfold inputAfter
  cases h with
  | combine haction | output haction | adjustBase haction | halt haction =>
    rw [Instruction.opcode_of_action haction]
    rfl
  | @wait target haction hinput =>
    have hopcode : instruction.opcode = .input := Instruction.opcode_of_action haction
    rw [if_pos hopcode, hinput]
    rfl
  | @input target word rest cell haction hinput =>
    have hopcode : instruction.opcode = .input := Instruction.opcode_of_action haction
    rw [if_pos hopcode, hinput]
    rfl
  | @jump condition subject destination a b haction =>
    rw [Instruction.opcode_of_action haction]
    cases condition.holds a <;> rfl

theorem output_of_executes : machine.OutputAfter instruction move.processor.output := by
  cases h with
  | combine haction | wait haction | input haction | adjustBase haction | halt haction =>
    refine .inr ⟨?_, rfl⟩
    rw [Instruction.opcode_of_action haction]
    nofun
  | @output source word haction hsource =>
    exact .inl ⟨Instruction.opcode_of_action haction, source, word,
      Instruction.parameters_of_action haction, operand_iff.mpr hsource, rfl⟩
  | @jump condition subject destination a b haction =>
    refine .inr ⟨?_, ?_⟩
    · rw [Instruction.opcode_of_action haction]
      nofun
    · cases condition.holds a <;> rfl

theorem base_of_executes : machine.BaseAfter instruction move.processor.base := by
  cases h with
  | combine haction | wait haction | input haction | output haction | halt haction =>
    refine .inr ⟨?_, rfl⟩
    rw [Instruction.opcode_of_action haction]
    nofun
  | @adjustBase offset distance haction hoffset =>
    exact .inl ⟨Instruction.opcode_of_action haction, offset, distance,
      Instruction.parameters_of_action haction, operand_iff.mpr hoffset, Word.isSum_iff.mpr rfl⟩
  | @jump condition subject destination a b haction =>
    refine .inr ⟨?_, ?_⟩
    · rw [Instruction.opcode_of_action haction]
      nofun
    · cases condition.holds a <;> rfl

theorem status_of_executes : move.processor.status = machine.statusAfter instruction := by
  unfold statusAfter
  cases h with
  | combine haction | output haction | adjustBase haction | halt haction =>
    rw [Instruction.opcode_of_action haction]
    rfl
  | wait haction hinput | input haction hinput =>
    rw [Instruction.opcode_of_action haction, hinput]
    rfl
  | @jump condition subject destination a b haction =>
    rw [Instruction.opcode_of_action haction]
    cases condition.holds a <;> rfl

theorem write_of_executes :
    (machine.Writes instruction ∧ ∃ target address cell word,
      instruction.parameters.getLast? = some target ∧ target.RefersTo machine.base address ∧
        address.cell = .ok cell ∧ machine.Computes instruction word ∧
          move.write = some (cell, word)) ∨
    (¬machine.Writes instruction ∧ move.write = none) := by
  cases h with
  | @combine combination left right target a b cell haction hleft hright htarget =>
    have hopcode : instruction.opcode = .combine combination :=
      Instruction.opcode_of_action haction
    have hparameters : instruction.parameters = [left, right, target] :=
      Instruction.parameters_of_action haction
    obtain ⟨address, hrefers, hcell⟩ := Parameter.exists_of_target htarget
    have hcomputes : machine.Computes instruction (combination.apply a b) :=
      .combined hopcode hparameters (operand_iff.mpr hleft) (operand_iff.mpr hright)
        (Combination.yields_iff.mpr rfl)
    refine .inl ⟨.inl ⟨combination, hopcode⟩, target, address, cell, _, ?_, hrefers, hcell,
      hcomputes, rfl⟩
    rw [hparameters]
    rfl
  | @wait target haction hinput =>
    refine .inr ⟨?_, rfl⟩
    rintro (⟨combination, hopcode⟩ | ⟨_, hsome⟩)
    · cases hopcode.symm.trans (Instruction.opcode_of_action haction)
    · exact hsome hinput
  | @input target word rest cell haction hinput htarget =>
    have hopcode : instruction.opcode = .input := Instruction.opcode_of_action haction
    have hparameters : instruction.parameters = [target] :=
      Instruction.parameters_of_action haction
    have hsome : machine.input ≠ [] := by
      rw [hinput]
      nofun
    obtain ⟨address, hrefers, hcell⟩ := Parameter.exists_of_target htarget
    refine .inl ⟨.inr ⟨hopcode, hsome⟩, target, address, cell, word, ?_, hrefers, hcell,
      .received hopcode hinput, rfl⟩
    rw [hparameters]
    rfl
  | output haction | jump haction | adjustBase haction | halt haction =>
    refine .inr ⟨?_, rfl⟩
    rintro (⟨combination, hopcode⟩ | ⟨hopcode, _⟩) <;>
      cases hopcode.symm.trans (Instruction.opcode_of_action haction)

theorem pc_of_executes : machine.PcAfter instruction move.processor.pc := by
  have hpassed := machine.toProcessor.toInt_advance instruction
  cases h with
  | combine haction | output haction | adjustBase haction =>
    have hopcode := Instruction.opcode_of_action haction
    refine .inr (.inr ⟨not_stays ?_ ?_, not_takesJump ?_, hpassed⟩) <;> rw [hopcode] <;> nofun
  | @wait target haction hinput =>
    have hopcode : instruction.opcode = .input := Instruction.opcode_of_action haction
    exact .inl ⟨.inr ⟨hopcode, hinput⟩, rfl⟩
  | @input target word rest cell haction hinput =>
    have hopcode : instruction.opcode = .input := Instruction.opcode_of_action haction
    refine .inr (.inr ⟨?_, not_takesJump ?_, hpassed⟩)
    · rintro (hhalt | ⟨_, hnone⟩)
      · cases hopcode.symm.trans hhalt
      · cases hinput.symm.trans hnone
    · rw [hopcode]
      nofun
  | @jump condition subject destination a b haction hsubject hdestination =>
    have hopcode : instruction.opcode = .jump condition := Instruction.opcode_of_action haction
    have hmoves : ¬machine.Stays instruction := by
      apply not_stays <;> rw [hopcode] <;> nofun
    have htakes := takesJump_iff haction (operand_iff.mpr hsubject)
    rw [← Condition.holds_iff] at htakes
    by_cases hholds : condition.holds a
    · rw [if_pos hholds]
      refine .inr (.inl ⟨htakes.mpr hholds, destination, ?_, operand_iff.mpr hdestination⟩)
      rw [Instruction.parameters_of_action haction]
      rfl
    · rw [if_neg hholds]
      exact .inr (.inr ⟨hmoves, mt htakes.mp hholds, hpassed⟩)
  | halt haction =>
    have hopcode : instruction.opcode = .halt := Instruction.opcode_of_action haction
    exact .inl ⟨.inl hopcode, rfl⟩

end Parts

theorem read_perform {machine : Machine σ} {move : Move} (h : move.write = none) (address : Word) :
    (machine.perform move).read address = machine.read address := by
  rw [perform, h]
  rfl

section Performing

variable [LawfulStore σ] {machine : Machine σ} {instruction : Instruction} {move : Move}

theorem read_perform_write {address : Word} {cell : Nat} {word : Word}
    (h : move.write = some (cell, word)) (hcell : address.cell = .ok cell) :
    (machine.perform move).read address = .ok word ∧
      ∀ other, other ≠ address → (machine.perform move).read other = machine.read other := by
  rw [perform, h]
  refine ⟨Store.read_write hcell machine.store word, ?_⟩
  intro other hother
  exact Store.read_write_of_ne hcell hother machine.store word

theorem reads_of_executes (h : machine.Executes machine.memory instruction move) :
    machine.ReadsAfter instruction (machine.perform move).read := by
  rcases write_of_executes h with
    ⟨hwrites, target, address, cell, word, hlast, hrefers, hcell, hcomputes, hwrite⟩ |
      ⟨hnot, hwrite⟩
  · exact .inl ⟨hwrites, target, address, word, hlast, hrefers, hcomputes,
      read_perform_write hwrite hcell⟩
  · exact .inr ⟨hnot, read_perform hwrite⟩

/-- An instruction has its effect when the move that it leads to is performed. -/
theorem effect_perform (h : machine.Executes machine.memory instruction move) :
    machine.Effect instruction (machine.perform move) where
  reads := reads_of_executes h
  input_eq := by
    rw [toProcessor_perform]
    exact input_of_executes h
  output := by
    rw [toProcessor_perform]
    exact output_of_executes h
  base := by
    rw [toProcessor_perform]
    exact base_of_executes h
  pc := by
    rw [toProcessor_perform]
    exact pc_of_executes h
  status_eq := by
    rw [toProcessor_perform]
    exact status_of_executes h

end Performing

/-- A step that succeeds has the effect of the instruction that was fetched before it, which leaves
nothing open. -/
theorem step_has_effect [LawfulStore σ] {machine after : Machine σ} {status : Status}
    (hstep : machine.step = (after, .ok status)) :
    ∃ instruction, machine.fetch = .ok instruction ∧ machine.Effect instruction after ∧
      after.status = status ∧ ∀ other, machine.Effect instruction other → after.Alike other := by
  rw [step] at hstep
  cases hmove : machine.move with
  | error fault =>
    rw [hmove] at hstep
    cases hstep
  | ok move =>
    rw [hmove] at hstep
    cases hstep
    obtain ⟨_, instruction, hfetch, hexecutes⟩ := Processor.executes_of_move hmove
    have heffect := effect_perform hexecutes
    refine ⟨instruction, hfetch, heffect, ?_, fun _ => heffect.alike⟩
    rw [toProcessor_perform]

/-- An addition that writes over itself: it is carried out as it stood there before. -/
theorem step_has_effect_overwriting :
    let machine : Machine Dense := load [22201, 1, 3, 0]
    ∃ after instruction, machine.step = (after, .ok .ready) ∧ machine.fetch = .ok instruction ∧
      instruction.word = 22201 ∧ machine.Effect instruction after ∧
      after.read 0 = .ok 1 ∧ after.pc = 4 := by
  intro machine
  have hresult : machine.step.2 = .ok .ready := by cbv
  have hread : machine.step.1.read 0 = .ok 1 := by cbv
  have hpc : machine.step.1.pc = 4 := by cbv
  have hword : machine.fetch.map Instruction.word = .ok 22201 := by cbv
  obtain ⟨instruction, hfetch, heffect, _⟩ := step_has_effect (Prod.ext rfl hresult)
  rw [hfetch] at hword
  exact ⟨_, instruction, Prod.ext rfl hresult, hfetch, Except.ok.inj hword, heffect, hread, hpc⟩

end Machine

end Intcode
