import Intcode.Instruction.Fetch
import Intcode.Proofs.Store.Access

/-!
The packed form of instructions. Fetching succeeds exactly where an instruction stands in packed
form, and gives that instruction. Everywhere else the fault is that of the first check that fails,
where a parameter has its mode checked before its word is read. A parameter can only lie at a
negative address when it is the first one behind the largest address, so the address is then the
least of all.
-/
namespace Intcode

/-- The digit that stands for a mode. -/
def Mode.digit : Mode → Nat
  | position => 0
  | immediate => 1
  | relative => 2

theorem Mode.ofDigit?_digit (mode : Mode) : ofDigit? mode.digit = some mode := by
  cases mode <;> rfl

theorem Mode.digit_le (mode : Mode) : mode.digit ≤ 2 := by
  cases mode <;> decide

theorem Mode.exists_digit_eq {digit : Nat} (h : digit ≤ 2) : ∃ mode : Mode, mode.digit = digit := by
  match digit with
  | 0 => exact ⟨.position, rfl⟩
  | 1 => exact ⟨.immediate, rfl⟩
  | 2 => exact ⟨.relative, rfl⟩

theorem Mode.ofDigit?_eq_none {digit : Nat} (h : 2 < digit) : ofDigit? digit = none := by
  match digit with
  | _ + 3 => rfl

namespace Opcode

/-- The number that stands for an operation. -/
def number : Opcode → Nat
  | combine .add => 1
  | combine .multiply => 2
  | input => 3
  | output => 4
  | jump .nonzero => 5
  | jump .zero => 6
  | combine .lessThan => 7
  | combine .equals => 8
  | adjustBase => 9
  | halt => 99

/-- The number of parameters that an operation takes. -/
def arity : Opcode → Nat
  | combine _ => 3
  | jump _ => 2
  | input | output | adjustBase => 1
  | halt => 0

theorem ofNumber?_number (opcode : Opcode) : ofNumber? opcode.number = some opcode := by
  cases opcode with
  | combine combination => cases combination <;> rfl
  | jump condition => cases condition <;> rfl
  | input | output | adjustBase | halt => rfl

theorem number_of_ofNumber? {number : Nat} {opcode : Opcode}
    (h : ofNumber? number = some opcode) : opcode.number = number := by
  unfold ofNumber? at h
  split at h <;> cases h <;> rfl

theorem ofNumber?_eq_none_iff {number : Nat} :
    ofNumber? number = none ↔ ∀ opcode : Opcode, opcode.number ≠ number := by
  constructor
  · rintro h opcode rfl
    rw [ofNumber?_number] at h
    cases h
  · intro h
    cases hopcode : ofNumber? number with
    | none => rfl
    | some opcode => exact absurd (number_of_ofNumber? hopcode) (h opcode)

theorem number_injective {opcode other : Opcode} (h : opcode.number = other.number) :
    opcode = other := by
  have hsame : ofNumber? opcode.number = ofNumber? other.number := congrArg ofNumber? h
  rw [ofNumber?_number, ofNumber?_number] at hsame
  exact Option.some.inj hsame

/-- The numbers of operations are those from one to nine, and ninety-nine. -/
theorem exists_number_eq_iff {number : Nat} :
    (∃ opcode : Opcode, opcode.number = number) ↔ 1 ≤ number ∧ number ≤ 9 ∨ number = 99 := by
  constructor
  · rintro ⟨opcode, rfl⟩
    cases opcode with
    | combine combination => cases combination <;> decide
    | jump condition => cases condition <;> decide
    | input | output | adjustBase | halt => decide
  · intro h
    have hsome : (ofNumber? number).isSome := by
      rcases h with ⟨hlow, hhigh⟩ | rfl
      · interval_cases number <;> rfl
      · rfl
    obtain ⟨opcode, hopcode⟩ := Option.isSome_iff_exists.mp hsome
    exact ⟨opcode, number_of_ofNumber? hopcode⟩

theorem number_lt (opcode : Opcode) : opcode.number < 100 := by
  have h := exists_number_eq_iff.mp ⟨opcode, rfl⟩
  omega

end Opcode

namespace Action

theorem length_parameters (action : Action) : action.parameters.length = action.opcode.arity := by
  cases action <;> rfl

/-- The mode digits of parameters with the digits in front of them, the first parameter's last. -/
def packModes (higher : Nat) : List Parameter → Nat
  | [] => higher
  | parameter :: rest => parameter.mode.digit + 10 * packModes higher rest

/-- The number that the packed word of an action is, with any digits in front of those it needs. -/
def packed (action : Action) (higher : Nat) : Nat :=
  action.opcode.number + 100 * packModes higher action.parameters

theorem packModes_div (higher : Nat) {parameters : List Parameter} {index : Nat}
    (h : index < parameters.length) :
    packModes higher parameters / 10 ^ index % 10 = parameters[index].mode.digit := by
  induction parameters generalizing index with
  | nil => cases h
  | cons parameter rest ih =>
    have hdigit := parameter.mode.digit_le
    cases index with
    | zero =>
      rw [packModes, Nat.pow_zero, Nat.div_one]
      simp only [List.getElem_cons_zero]
      omega
    | succ index =>
      have hrest : packModes higher (parameter :: rest) / 10 = packModes higher rest := by
        rw [packModes]
        omega
      rw [Nat.pow_succ', ← Nat.div_div_eq_div_mul, hrest, List.getElem_cons_succ]
      exact ih (Nat.lt_of_succ_lt_succ h)

theorem packed_mod (action : Action) (higher : Nat) :
    action.packed higher % 100 = action.opcode.number := by
  have h := action.opcode.number_lt
  rw [packed]
  omega

theorem packed_div (action : Action) (higher : Nat) {index : Nat}
    (h : index < action.parameters.length) :
    action.packed higher / 10 ^ (2 + index) % 10 = action.parameters[index].mode.digit := by
  have hnumber := action.opcode.number_lt
  have hmodes : action.packed higher / 10 ^ 2 = packModes higher action.parameters := by
    rw [packed]
    omega
  rw [Nat.pow_add, ← Nat.div_div_eq_div_mul, hmodes]
  exact packModes_div higher h

theorem exists_of_parameters (opcode : Opcode) {parameters : List Parameter}
    (h : parameters.length = opcode.arity) :
    ∃ action : Action, action.opcode = opcode ∧ action.parameters = parameters := by
  cases opcode with
  | combine combination =>
    obtain ⟨left, right, target, rfl⟩ := List.length_eq_three.mp h
    exact ⟨.combine combination left right target, rfl, rfl⟩
  | jump condition =>
    obtain ⟨subject, destination, rfl⟩ := List.length_eq_two.mp h
    exact ⟨.jump condition subject destination, rfl, rfl⟩
  | input =>
    obtain ⟨target, rfl⟩ := List.length_eq_one_iff.mp h
    exact ⟨.input target, rfl, rfl⟩
  | output =>
    obtain ⟨source, rfl⟩ := List.length_eq_one_iff.mp h
    exact ⟨.output source, rfl, rfl⟩
  | adjustBase =>
    obtain ⟨offset, rfl⟩ := List.length_eq_one_iff.mp h
    exact ⟨.adjustBase offset, rfl, rfl⟩
  | halt =>
    cases List.length_eq_zero_iff.mp h
    exact ⟨.halt, rfl, rfl⟩

end Action

namespace Word

theorem add_ofNat (pc : Word) (index : Nat) :
    pc + 1 + Int64.ofNat index = Int64.ofInt (pc.toInt + 1 + index) := by
  rw [Int64.ofInt_add, Int64.ofInt_add, Int64.ofInt_toInt, Int64.ofInt_eq_ofNat]
  rfl

end Word

namespace Instruction

/-- A parameter of an instruction at the address passes both of its checks. -/
structure Passes (pc word : Word) (index : Nat) : Prop where
  mode : modeDigit word index ≤ 2
  address : pc.toInt + 1 + index ≤ 2 ^ 63 - 1

/-- The parameter stands behind the address, and its mode in the packed word. -/
structure Carries (memory : Memory) (pc word : Word) (index : Nat) (parameter : Parameter) :
    Prop where
  mode : parameter.mode.digit = modeDigit word index
  address : pc.toInt + 1 + index ≤ 2 ^ 63 - 1
  raw : parameter.raw = memory (pc.toInt.toNat + 1 + index)

/-- The instruction stands at the address in packed form. -/
structure Stands (memory : Memory) (pc : Word) (instruction : Instruction) : Prop where
  address : 0 ≤ pc.toInt
  word_eq : instruction.word = memory pc.toInt.toNat
  sign : 0 ≤ instruction.word.toInt
  number : instruction.opcode.number = instruction.word.toInt.toNat % 100
  parameter : ∀ (index : Nat) (h : index < instruction.parameters.length),
    Carries memory pc instruction.word index instruction.parameters[index]

/-- The fault of the first check that fails at the address. -/
inductive Faulty (memory : Memory) (pc : Word) : Fault → Prop
  | address (hpc : pc.toInt < 0) : Faulty memory pc (.negativeAddress pc)
  | opcode {word : Word} (hpc : 0 ≤ pc.toInt) (hword : word = memory pc.toInt.toNat)
      (hnone : word.toInt < 0 ∨ ∀ opcode : Opcode, opcode.number ≠ word.toInt.toNat % 100) :
      Faulty memory pc (.illegalOpcode pc word)
  | mode {word : Word} {opcode : Opcode} {index : Nat} (hpc : 0 ≤ pc.toInt)
      (hword : word = memory pc.toInt.toNat) (hsign : 0 ≤ word.toInt)
      (hnumber : opcode.number = word.toInt.toNat % 100) (hindex : index < opcode.arity)
      (hbefore : ∀ earlier < index, Passes pc word earlier)
      (hdigit : 2 < modeDigit word index) :
      Faulty memory pc (.illegalMode pc word (modeDigit word index))
  | parameter {word : Word} {opcode : Opcode} {index : Nat} (hpc : 0 ≤ pc.toInt)
      (hword : word = memory pc.toInt.toNat) (hsign : 0 ≤ word.toInt)
      (hnumber : opcode.number = word.toInt.toNat % 100) (hindex : index < opcode.arity)
      (hbefore : ∀ earlier < index, Passes pc word earlier)
      (hdigit : modeDigit word index ≤ 2) (hbeyond : 2 ^ 63 - 1 < pc.toInt + 1 + index) :
      Faulty memory pc (.negativeAddress (pc + 1 + Int64.ofNat index))

variable {memory : Memory} {pc word : Word} {index : Nat} {fault : Fault}

/-- A parameter word that is within reach is read behind the packed word. -/
theorem read_parameter (hpc : 0 ≤ pc.toInt) (haddress : pc.toInt + 1 + index ≤ 2 ^ 63 - 1) :
    memory.read (pc + 1 + Int64.ofNat index) = .ok (memory (pc.toInt.toNat + 1 + index)) := by
  have hsum : pc.toInt + 1 + index = ((pc.toInt.toNat + 1 + index : Nat) : Int) := by omega
  rw [Word.add_ofNat, hsum, Int64.ofInt_eq_ofNat, Memory.read, Word.cell_ofNat (by omega)]
  rfl

theorem fetchParameter_eq_ok (hpc : 0 ≤ pc.toInt) {parameter : Parameter}
    (h : Carries memory pc word index parameter) :
    fetchParameter memory pc word index = .ok parameter := by
  obtain ⟨mode, raw⟩ := parameter
  obtain ⟨hmode, haddress, rfl⟩ := h
  have hdigit : mode.digit = modeDigit word index := hmode
  rw [fetchParameter, ← hdigit, Mode.ofDigit?_digit, read_parameter hpc haddress]
  rfl

theorem exists_carries (h : Passes pc word index) :
    ∃ parameter, Carries memory pc word index parameter := by
  obtain ⟨mode, hmode⟩ := Mode.exists_digit_eq h.mode
  exact ⟨⟨mode, memory (pc.toInt.toNat + 1 + index)⟩, hmode, h.address, rfl⟩

theorem exists_fetchParameter (memory : Memory) (hpc : 0 ≤ pc.toInt)
    (h : ∀ earlier < index, Passes pc word earlier) :
    ∀ earlier < index, ∃ parameter, fetchParameter memory pc word earlier = .ok parameter := by
  intro earlier hless
  obtain ⟨parameter, hcarries⟩ := exists_carries (h earlier hless)
  exact ⟨parameter, fetchParameter_eq_ok hpc hcarries⟩

theorem Carries.passes {parameter : Parameter} (h : Carries memory pc word index parameter) :
    Passes pc word index := ⟨h.mode ▸ parameter.mode.digit_le, h.address⟩

theorem fetchParameter_eq_mode (h : 2 < modeDigit word index) :
    fetchParameter memory pc word index =
      .error (.illegalMode pc word (modeDigit word index)) := by
  rw [fetchParameter, Mode.ofDigit?_eq_none h]

theorem fetchParameter_eq_address (hdigit : modeDigit word index ≤ 2)
    (hbeyond : (pc + 1 + Int64.ofNat index : Word) < 0) :
    fetchParameter memory pc word index =
      .error (.negativeAddress (pc + 1 + Int64.ofNat index)) := by
  obtain ⟨mode, hmode⟩ := Mode.exists_digit_eq hdigit
  rw [fetchParameter, ← hmode, Mode.ofDigit?_digit, Memory.read, Word.cell_of_neg hbeyond]
  rfl

/-- The first parameter word that is out of reach has the least of all addresses. -/
theorem address_eq_minValue (hbefore : ∀ earlier < index, Passes pc word earlier)
    (hbeyond : 2 ^ 63 - 1 < pc.toInt + 1 + index) :
    pc + 1 + Int64.ofNat index = Int64.minValue := by
  have hmax := pc.toInt_lt
  have hleast : pc.toInt + 1 + index = 2 ^ 63 := by
    cases index with
    | zero => omega
    | succ earlier =>
      have hreach := (hbefore earlier (Nat.lt_succ_self earlier)).address
      omega
  rw [Word.add_ofNat, hleast]
  rfl

theorem fetchAction_eq_ok {action : Action}
    (h : ∀ (index : Nat) (hindex : index < action.parameters.length),
      fetchParameter memory pc word index = .ok action.parameters[index]) :
    fetchAction memory pc word action.opcode = .ok action := by
  cases action with
  | combine combination left right target =>
    have hleft := h 0 (by simp [Action.parameters])
    have hright := h 1 (by simp [Action.parameters])
    have htarget := h 2 (by simp [Action.parameters])
    simp only [Action.opcode, fetchAction, hleft, hright, htarget]
    rfl
  | jump condition subject destination =>
    have hsubject := h 0 (by simp [Action.parameters])
    have hdestination := h 1 (by simp [Action.parameters])
    simp only [Action.opcode, fetchAction, hsubject, hdestination]
    rfl
  | input | output | adjustBase =>
    have hparameter := h 0 (by simp [Action.parameters])
    simp only [Action.opcode, fetchAction, hparameter]
    rfl
  | halt => rfl

theorem fetchAction_eq_error {opcode : Opcode} (hindex : index < opcode.arity)
    (hbefore : ∀ earlier < index, ∃ parameter,
      fetchParameter memory pc word earlier = .ok parameter)
    (hfault : fetchParameter memory pc word index = .error fault) :
    fetchAction memory pc word opcode = .error fault := by
  cases opcode with
  | combine combination =>
    change index < 3 at hindex
    interval_cases index
    · simp only [fetchAction, hfault]
      rfl
    · obtain ⟨left, hleft⟩ := hbefore 0 (by decide)
      simp only [fetchAction, hleft, hfault]
      rfl
    · obtain ⟨left, hleft⟩ := hbefore 0 (by decide)
      obtain ⟨right, hright⟩ := hbefore 1 (by decide)
      simp only [fetchAction, hleft, hright, hfault]
      rfl
  | jump condition =>
    change index < 2 at hindex
    interval_cases index
    · simp only [fetchAction, hfault]
      rfl
    · obtain ⟨subject, hsubject⟩ := hbefore 0 (by decide)
      simp only [fetchAction, hsubject, hfault]
      rfl
  | input | output | adjustBase =>
    cases Nat.lt_one_iff.mp hindex
    simp only [fetchAction, hfault]
    rfl
  | halt => exact absurd hindex (Nat.not_lt_zero index)

theorem fetch_of_word (hpc : 0 ≤ pc.toInt) (hword : word = memory pc.toInt.toNat) :
    fetch memory pc = match opcode? word with
      | none => .error (.illegalOpcode pc word)
      | some opcode => do return ⟨word, ← fetchAction memory pc word opcode⟩ := by
  have hread : memory.read pc = .ok word := by
    rw [Memory.read, Word.cell_of_not_neg (Word.not_neg_iff.mpr hpc), hword]
    rfl
  rw [fetch, hread]
  rfl

theorem opcode?_eq_some {opcode : Opcode} (hsign : 0 ≤ word.toInt)
    (hnumber : opcode.number = word.toInt.toNat % 100) : opcode? word = some opcode := by
  rw [opcode?, if_neg (Word.not_neg_iff.mpr hsign), ← hnumber, Opcode.ofNumber?_number]

theorem Stands.fetch_eq {instruction : Instruction} (h : Stands memory pc instruction) :
    fetch memory pc = .ok instruction := by
  have haction := fetchAction_eq_ok fun index hindex =>
    fetchParameter_eq_ok h.address (h.parameter index hindex)
  have hopcode := opcode?_eq_some h.sign h.number
  rw [fetch_of_word h.address h.word_eq, hopcode]
  exact congrArg (Except.map (Instruction.mk instruction.word)) haction

theorem Faulty.fetch_eq (h : Faulty memory pc fault) : fetch memory pc = .error fault := by
  cases h with
  | address hpc =>
    rw [fetch, Memory.read, Word.cell_of_neg (Word.neg_iff.mpr hpc)]
    rfl
  | @opcode word hpc hword hnone =>
    have hopcode : opcode? word = none := by
      rw [opcode?]
      split
      · rfl
      · next hsign =>
        have hnumber := hnone.resolve_left (Int.not_lt.mpr (Word.not_neg_iff.mp hsign))
        exact Opcode.ofNumber?_eq_none_iff.mpr hnumber
    rw [fetch_of_word hpc hword, hopcode]
  | mode hpc hword hsign hnumber hindex hbefore hdigit =>
    have haction := fetchAction_eq_error hindex (exists_fetchParameter memory hpc hbefore)
      (fetchParameter_eq_mode hdigit)
    rw [fetch_of_word hpc hword, opcode?_eq_some hsign hnumber]
    exact congrArg (Except.map (Instruction.mk _)) haction
  | parameter hpc hword hsign hnumber hindex hbefore hdigit hbeyond =>
    have hneg : (pc + 1 + Int64.ofNat _ : Word) < 0 :=
      address_eq_minValue hbefore hbeyond ▸ (by decide : Int64.minValue < 0)
    have haction := fetchAction_eq_error hindex (exists_fetchParameter memory hpc hbefore)
      (fetchParameter_eq_address hdigit hneg)
    rw [fetch_of_word hpc hword, opcode?_eq_some hsign hnumber]
    exact congrArg (Except.map (Instruction.mk _)) haction

/-- Parameters that all pass make up the parameters of one instruction. -/
theorem exists_stands {opcode : Opcode} (hpc : 0 ≤ pc.toInt) (hword : word = memory pc.toInt.toNat)
    (hsign : 0 ≤ word.toInt) (hnumber : opcode.number = word.toInt.toNat % 100)
    (hpasses : ∀ index < opcode.arity, Passes pc word index) :
    ∃ instruction, Stands memory pc instruction := by
  have hcarries (index : Fin opcode.arity) : ∃ parameter, Carries memory pc word index parameter :=
    exists_carries (hpasses index index.isLt)
  choose parameters hparameters using hcarries
  have hlength : (List.ofFn parameters).length = opcode.arity := List.length_ofFn
  obtain ⟨action, rfl, haction⟩ := Action.exists_of_parameters opcode hlength
  refine ⟨⟨word, action⟩, hpc, hword, hsign, hnumber, ?_⟩
  intro index hindex
  change index < action.parameters.length at hindex
  have harity : index < action.opcode.arity := action.length_parameters ▸ hindex
  have hparameter : action.parameters[index] = parameters ⟨index, harity⟩ := by
    simp only [haction, List.getElem_ofFn]
  change Carries memory pc word index action.parameters[index]
  rw [hparameter]
  exact hparameters ⟨index, harity⟩

theorem stands_or_faulty (memory : Memory) (pc : Word) :
    (∃ instruction, Stands memory pc instruction) ∨ ∃ fault, Faulty memory pc fault := by
  by_cases hpc : 0 ≤ pc.toInt
  swap
  · exact .inr ⟨_, .address (Int.not_le.mp hpc)⟩
  obtain ⟨word, hword⟩ : ∃ word, word = memory pc.toInt.toNat := ⟨_, rfl⟩
  by_cases hsign : 0 ≤ word.toInt
  swap
  · exact .inr ⟨_, .opcode hpc hword (.inl (Int.not_le.mp hsign))⟩
  by_cases hopcode : ∃ opcode : Opcode, opcode.number = word.toInt.toNat % 100
  swap
  · exact .inr ⟨_, .opcode hpc hword (.inr (not_exists.mp hopcode))⟩
  obtain ⟨opcode, hnumber⟩ := hopcode
  by_cases hpasses : ∀ index < opcode.arity, Passes pc word index
  · exact .inl (exists_stands hpc hword hsign hnumber hpasses)
  -- The first parameter that does not pass decides on the fault.
  classical
  have hfails : ∃ index, index < opcode.arity ∧ ¬Passes pc word index := by simpa using hpasses
  obtain ⟨hindex, hnot⟩ := Nat.find_spec hfails
  have hbefore (earlier : Nat) (hless : earlier < Nat.find hfails) : Passes pc word earlier := by
    by_contra hearlier
    exact Nat.find_min hfails hless ⟨hless.trans hindex, hearlier⟩
  by_cases hdigit : modeDigit word (Nat.find hfails) ≤ 2
  · have hbeyond : 2 ^ 63 - 1 < pc.toInt + 1 + Nat.find hfails := by
      by_contra hreach
      exact hnot ⟨hdigit, Int.not_lt.mp hreach⟩
    exact .inr ⟨_, .parameter hpc hword hsign hnumber hindex hbefore hdigit hbeyond⟩
  · exact .inr ⟨_, .mode hpc hword hsign hnumber hindex hbefore (Nat.not_le.mp hdigit)⟩

theorem fetch_eq_ok_iff {instruction : Instruction} :
    fetch memory pc = .ok instruction ↔ Stands memory pc instruction := by
  refine ⟨fun h => ?_, Stands.fetch_eq⟩
  rcases stands_or_faulty memory pc with ⟨other, hstands⟩ | ⟨fault, hfaulty⟩
  · cases hstands.fetch_eq.symm.trans h
    exact hstands
  · cases hfaulty.fetch_eq.symm.trans h

theorem fetch_eq_error_iff : fetch memory pc = .error fault ↔ Faulty memory pc fault := by
  refine ⟨fun h => ?_, Faulty.fetch_eq⟩
  rcases stands_or_faulty memory pc with ⟨instruction, hstands⟩ | ⟨other, hfaulty⟩
  · cases hstands.fetch_eq.symm.trans h
  · cases hfaulty.fetch_eq.symm.trans h
    exact hfaulty

/-- What has to hold for fetching to succeed, in numbers. -/
structure Fetchable (memory : Memory) (pc word : Word) : Prop where
  address : 0 ≤ pc.toInt
  sign : 0 ≤ word.toInt
  number : 1 ≤ word.toInt.toNat % 100 ∧ word.toInt.toNat % 100 ≤ 9 ∨ word.toInt.toNat % 100 = 99
  parameter : ∀ opcode : Opcode, opcode.number = word.toInt.toNat % 100 →
    ∀ index < opcode.arity, Passes pc word index

theorem exists_fetch_iff : (∃ instruction, fetch memory pc = .ok instruction) ↔
    Fetchable memory pc (memory pc.toInt.toNat) := by
  constructor
  · rintro ⟨instruction, hfetch⟩
    have hstands := fetch_eq_ok_iff.mp hfetch
    rw [← hstands.word_eq]
    refine ⟨hstands.address, hstands.sign, ?_, ?_⟩
    · exact Opcode.exists_number_eq_iff.mp ⟨_, hstands.number⟩
    · intro opcode hnumber index hindex
      cases Opcode.number_injective (hnumber.trans hstands.number.symm)
      have hlength : index < instruction.parameters.length :=
        instruction.action.length_parameters ▸ hindex
      exact (hstands.parameter index hlength).passes
  · rintro ⟨hpc, hsign, hnumber, hpasses⟩
    obtain ⟨opcode, hopcode⟩ := Opcode.exists_number_eq_iff.mpr hnumber
    obtain ⟨instruction, hstands⟩ := exists_stands hpc rfl hsign hopcode (hpasses opcode hopcode)
    exact ⟨instruction, hstands.fetch_eq⟩

/-- The only addresses that fetching complains of are a negative program counter and the least
address of all. -/
theorem address_of_fault {address : Word}
    (h : fetch memory pc = .error (.negativeAddress address)) :
    address = pc ∧ pc < 0 ∨ address = Int64.minValue := by
  cases fetch_eq_error_iff.mp h with
  | address hpc => exact .inl ⟨rfl, Word.neg_iff.mpr hpc⟩
  | parameter _ _ _ _ _ hbefore _ hbeyond => exact .inr (address_eq_minValue hbefore hbeyond)

/-- The words that an action takes up, with any digits in front of those that its packed word
needs. -/
def words (action : Action) (higher : Nat) : List Word :=
  Int64.ofNat (action.packed higher) :: action.parameters.map Parameter.raw

/-- An action whose words stand at an address stands there in packed form. -/
theorem stands_of_words {action : Action} {higher : Nat} (hpacked : action.packed higher < 2 ^ 63)
    (hpc : 0 ≤ pc.toInt) (hend : pc.toInt + action.parameters.length ≤ 2 ^ 63 - 1)
    (hwords : ∀ (index : Nat) (h : index < (words action higher).length),
      memory (pc.toInt.toNat + index) = (words action higher)[index]) :
    Stands memory pc ⟨Int64.ofNat (action.packed higher), action⟩ := by
  have hvalue : (Int64.ofNat (action.packed higher)).toInt.toNat = action.packed higher := by
    rw [Int64.toInt_ofNat_of_lt hpacked, Int.toNat_natCast]
  refine ⟨hpc, (hwords 0 (Nat.succ_pos _)).symm, ?_, ?_, ?_⟩
  · rw [Int64.toInt_ofNat_of_lt hpacked]
    omega
  · rw [hvalue, Action.packed_mod]
    rfl
  · intro index hindex
    change index < action.parameters.length at hindex
    refine ⟨?_, by omega, ?_⟩
    · rw [modeDigit, hvalue]
      exact (action.packed_div higher hindex).symm
    · have hword := hwords (index + 1) (by simpa [words] using hindex)
      have hplace : pc.toInt.toNat + 1 + index = pc.toInt.toNat + (index + 1) := by omega
      rw [hplace, hword]
      simp [words, parameters]

end Instruction

namespace Access

/-- Writes of words into the cells from the given one on. -/
def writes (cell : Nat) : List Word → List Access
  | [] => []
  | word :: rest => .write (Int64.ofNat cell) word :: writes (cell + 1) rest

end Access

namespace Store

variable {σ : Type} [Store σ] [LawfulStore σ]

/-- Words written one behind the other are found there, and all else is as it was. -/
theorem memory_writes (store : σ) (cell : Nat) {words : List Word}
    (hend : cell + words.length ≤ 2 ^ 63) (other : Nat) :
    memory (after store (Access.writes cell words)) other =
      if other < cell then memory store other
      else words.getD (other - cell) (memory store other) := by
  induction words generalizing store cell with
  | nil => simp [Access.writes, after]
  | cons word rest ih =>
    rw [List.length_cons] at hend
    have hcell : Word.cell (Int64.ofNat cell) = .ok cell := Word.cell_ofNat (by omega)
    have hwrite : after store (Access.writes cell (word :: rest)) =
        after (write store cell word) (Access.writes (cell + 1) rest) := by
      change after (access store (.write (Int64.ofNat cell) word)).1 _ = _
      rw [access, writeAt, hcell]
      rfl
    rw [hwrite, ih _ _ (by omega), LawfulStore.memory_write]
    rcases Nat.lt_trichotomy other cell with below | rfl | beyond
    · have hbefore : other < cell + 1 := by omega
      have hne : other ≠ cell := by omega
      simp [Memory.set, below, hbefore, hne]
    · simp [Memory.set]
    · have hbehind : ¬other < cell + 1 := by omega
      have hne : other ≠ cell := by omega
      have hsplit : other - cell = other - (cell + 1) + 1 := by omega
      simp [Memory.set, hbehind, hne, Nat.not_lt_of_gt beyond, hsplit]

/-- An action that is stored in packed form is fetched again, whatever was in the store before. -/
theorem fetch_stored (store : σ) {pc : Word} {action : Action} {higher : Nat}
    (hpacked : action.packed higher < 2 ^ 63) (hpc : 0 ≤ pc.toInt)
    (hend : pc.toInt + action.parameters.length ≤ 2 ^ 63 - 1) :
    Instruction.fetch
      (memory (after store (Access.writes pc.toInt.toNat (Instruction.words action higher)))) pc =
        .ok ⟨Int64.ofNat (action.packed higher), action⟩ := by
  have hlength : (Instruction.words action higher).length = action.parameters.length + 1 := by
    simp [Instruction.words]
  refine (Instruction.stands_of_words hpacked hpc hend ?_).fetch_eq
  intro index hindex
  have hbehind : ¬pc.toInt.toNat + index < pc.toInt.toNat := by omega
  rw [memory_writes store _ (by omega), if_neg hbehind, Nat.add_sub_cancel_left,
    List.getD_eq_getElem?_getD, List.getElem?_eq_getElem hindex]
  rfl

/-- Fetching reads the packed form: what it gives, when it fails, with which fault, and that an
action comes back from its words. -/
theorem fetch_reads_packed (store : σ) (pc : Word) :
    (∀ instruction, Instruction.fetch (memory store) pc = .ok instruction ↔
      Instruction.Stands (memory store) pc instruction) ∧
    ((∃ instruction, Instruction.fetch (memory store) pc = .ok instruction) ↔
      Instruction.Fetchable (memory store) pc (memory store pc.toInt.toNat)) ∧
    (∀ fault, Instruction.fetch (memory store) pc = .error fault ↔
      Instruction.Faulty (memory store) pc fault) ∧
    (∀ address, Instruction.fetch (memory store) pc = .error (.negativeAddress address) →
      address = pc ∧ pc < 0 ∨ address = Int64.minValue) ∧
    ∀ (action : Action) (higher : Nat), action.packed higher < 2 ^ 63 → 0 ≤ pc.toInt →
      pc.toInt + action.parameters.length ≤ 2 ^ 63 - 1 →
      Instruction.fetch
        (memory (after store (Access.writes pc.toInt.toNat (Instruction.words action higher)))) pc =
          .ok ⟨Int64.ofNat (action.packed higher), action⟩ := by
  refine ⟨fun _ => Instruction.fetch_eq_ok_iff, Instruction.exists_fetch_iff,
    fun _ => Instruction.fetch_eq_error_iff, fun _ => Instruction.address_of_fault, ?_⟩
  intro action higher hpacked hpc hend
  exact fetch_stored store hpacked hpc hend

/-- An addition that fills the last four cells, with digits to spare, and one in the last cell of
all, which finds no parameters. -/
theorem fetch_reads_packed_last :
    let action : Action :=
      .combine .add ⟨.relative, -5⟩ ⟨.immediate, 7⟩ ⟨.position, Int64.minValue⟩
    let pc : Word := 9223372036854775804
    let words : List Word := Instruction.words action 345
    let last : Sparse := write (ofList []) 9223372036854775807 1
    (action.packed 345 = 34501201 ∧ action.packed 345 < 2 ^ 63 ∧ 0 ≤ pc.toInt ∧
      pc.toInt + action.parameters.length ≤ 2 ^ 63 - 1 ∧
      Instruction.fetch
        (memory (after (ofList [3, 4] : Dense) (Access.writes pc.toInt.toNat words))) pc =
          .ok ⟨Int64.ofNat 34501201, action⟩) ∧
    (Instruction.fetch (memory last) Int64.maxValue = .error (.negativeAddress Int64.minValue) ∧
      (Int64.minValue = Int64.maxValue ∧ Int64.maxValue < 0 ∨
        Int64.minValue = Int64.minValue)) := by
  intro action pc words last
  have hnumber : action.packed 345 = 34501201 := by decide
  have hpacked : action.packed 345 < 2 ^ 63 := by decide
  have hpc : 0 ≤ pc.toInt := by decide
  have hend : pc.toInt + action.parameters.length ≤ 2 ^ 63 - 1 := by decide
  have hstored :=
    (fetch_reads_packed (ofList [3, 4] : Dense) pc).2.2.2.2 action 345 hpacked hpc hend
  rw [hnumber] at hstored
  have hfault : Instruction.fetch (memory last) Int64.maxValue =
      .error (.negativeAddress Int64.minValue) := by
    decide +kernel
  have haddress := (fetch_reads_packed last Int64.maxValue).2.2.2.1 _ hfault
  exact ⟨⟨hnumber, hpacked, hpc, hend, hstored⟩, hfault, haddress⟩

end Store

end Intcode
