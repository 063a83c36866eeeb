import Intcode.Log.Event
import Intcode.Proofs.Listing.RoundTrip
import Intcode.Proofs.Text.Legible

/-!
What the record of a fetched instruction says. Its text is put together from numerals, names and
punctuation, and each of these parts is told apart from what comes after it. So the text determines
the whole processor, the operation, and its parameters. The sign in front of a distance makes no
trouble: with its sign, the distance is a numeral like any other.
-/
namespace Intcode

namespace Numeral

instance : DecidablePred IsMark := fun c =>
  inferInstanceAs (Decidable (c.isDigit ∨ c = '+' ∨ c = '-'))

/-- A numeral is told apart from what comes after it if that is neither a digit nor a sign. -/
theorem legible_of_standsFor {print : Word → List Char}
    (h : ∀ word, StandsFor (print word) word.toInt) : Legible print (StartsOutside IsMark) := by
  refine legible_of_chars ?_ fun word => (h word).isMark
  intro word other heq
  have hword := read_eq_ok_iff.mpr (h word)
  rw [heq, read_eq_ok_iff.mpr (h other)] at hword
  exact (Except.ok.inj hword).symm

theorem StandsFor.exists_head? {text : List Char} {value : Int} (h : StandsFor text value)
    (rest : List Char) : ∃ c, IsMark c ∧ (text ++ rest).head? = some c := by
  obtain ⟨c, others, rfl⟩ := List.exists_cons_of_ne_nil h.ne_nil
  exact ⟨c, h.isMark c List.mem_cons_self, rfl⟩

/-- A plus sign in front of a word without a sign makes no difference to what it stands for. -/
theorem standsFor_plus_text {word : Word} (h : ¬word < 0) :
    StandsFor ('+' :: word.text.toList) word.toInt := by
  have hsign : 0 ≤ word.toInt := by
    rw [Int64.lt_iff_toInt_lt, Int64.toInt_zero] at h
    omega
  have hstands := StandsFor.plus (isDigits_toDigits word.toInt.toNat)
  rw [Nat.ofDigitChars_ten_toDigits, Int.toNat_of_nonneg hsign] at hstands
  rw [Word.text, Int.repr_eq_if, if_pos hsign, Nat.toList_repr]
  exact hstands

end Numeral

open Numeral (IsMark)

theorem Word.legible : Legible (fun word : Word => word.text.toList) (StartsOutside IsMark) :=
  Numeral.legible_of_standsFor Numeral.standsFor_text

theorem Status.legible :
    Legible (fun status : Status => status.text.toList) (StartsOutside (· ≠ ':')) := by
  apply legible_of_chars
  · intro status other h
    cases status <;> cases other <;> first | rfl | exact absurd h (by decide)
  · intro status
    cases status <;> simp [Status.text]

/-- An operation's name ends with the blank in front of its parameters or with the text. -/
theorem Opcode.legible :
    Legible (fun opcode : Opcode => opcode.mnemonic.toList) (StartsOutside (· ≠ ' ')) := by
  apply legible_of_chars
  · intro opcode other h
    dsimp only at h
    rw [String.toList_inj] at h
    unfold mnemonic at h
    split at h <;> split at h <;> first | rfl | exact absurd h (by decide)
  · intro opcode
    unfold mnemonic
    split <;> simp

namespace Processor

theorem separates_queue :
    Separates [',', ' '] (StartsOutside IsMark) (fun rest => rest.head? = some ']') where
  between rest := startsOutside_of_head? rfl (by decide)
  behind rest h := startsOutside_of_head? h (by decide)
  apart rest h hprefix := by
    obtain ⟨more, rfl⟩ := hprefix
    cases h

/-- A queue is told apart from whatever comes after it. -/
theorem legible_queueText :
    Legible (fun queue : List Word => (queueText queue).toList) fun _ => True := by
  intro queue other rest rest' _ _ h
  simp only [queueText, String.toList_append, String.toList_intercalate, List.map_map,
    List.append_assoc] at h
  -- An empty queue is closed where another one has the first mark of a numeral.
  have hstart (word : Word) (rest : List Char) : ¬(word.text.toList ++ rest).head? = some ']' := by
    obtain ⟨c, hmark, hc⟩ := (Numeral.standsFor_text word).exists_head? rest
    rw [hc]
    intro hend
    cases hend
    exact absurd hmark (by decide)
  obtain ⟨rfl, hend⟩ :=
    Word.legible.intercalate separates_queue hstart rfl rfl (List.append_cancel_left h)
  exact ⟨rfl, List.append_cancel_left hend⟩

theorem legible : Legible (fun processor : Processor => processor.text.toList)
    (StartsOutside (· ≠ ':')) := by
  intro processor other rest rest' hrest hrest' h
  obtain ⟨pc, base, status, input, output⟩ := processor
  obtain ⟨pc', base', status', input', output'⟩ := other
  have hblank {text rest : List Char} (htext : text.head? = some ' ') :
      StartsOutside IsMark (text ++ rest) := by
    refine startsOutside_of_head? (c := ' ') ?_ (by decide)
    rw [List.head?_append, htext, Option.some_or]
  -- The parts are taken off one after another, each with the blank in front of the next one.
  simp only [text, String.toList_append, List.append_assoc] at h
  have hpc := List.append_cancel_left h
  obtain ⟨rfl, hbase⟩ := Word.legible (hblank rfl) (hblank rfl) hpc
  obtain ⟨rfl, hinput⟩ := Word.legible (hblank rfl) (hblank rfl) (List.append_cancel_left hbase)
  obtain ⟨rfl, houtput⟩ := legible_queueText trivial trivial (List.append_cancel_left hinput)
  obtain ⟨rfl, hstatus⟩ := legible_queueText trivial trivial (List.append_cancel_left houtput)
  obtain ⟨rfl, hend⟩ := Status.legible hrest hrest' (List.append_cancel_left hstatus)
  exact ⟨rfl, hend⟩

end Processor

namespace Parameter

/-- What stands in front of the numeral. -/
def opening : Mode → List Char
  | .position => ['[']
  | .immediate => ['#']
  | .relative => ['[', 'r', 'b']

def closing : Mode → List Char
  | .position | .relative => [']']
  | .immediate => []

/-- A distance always has its sign. -/
def numeral (mode : Mode) (word : Word) : List Char :=
  match mode with
  | .position | .immediate => word.text.toList
  | .relative => if word < 0 then word.text.toList else '+' :: word.text.toList

theorem standsFor_numeral (mode : Mode) (word : Word) :
    Numeral.StandsFor (numeral mode word) word.toInt := by
  cases mode with
  | position | immediate => exact Numeral.standsFor_text word
  | relative =>
    rw [numeral]
    split
    · exact Numeral.standsFor_text word
    case isFalse hsign => exact Numeral.standsFor_plus_text hsign

theorem toList_text (parameter : Parameter) : parameter.text.toList =
    opening parameter.mode ++ numeral parameter.mode parameter.raw ++ closing parameter.mode := by
  obtain ⟨mode, raw⟩ := parameter
  rw [text]
  cases mode with
  | position =>
    dsimp only
    rw [String.toList_append, String.toList_append]
    rfl
  | immediate =>
    dsimp only
    rw [String.toList_append]
    exact (List.append_nil _).symm
  | relative =>
    dsimp only [numeral]
    split
    · rw [String.toList_append, String.toList_append]
      rfl
    · rw [String.toList_append, String.toList_append]
      rfl

/-- The notations begin differently, since a mark comes after what stands in front of a numeral. -/
theorem opening_inj {mode other : Mode} {text text' : List Char}
    (hmark : ∃ c, IsMark c ∧ text.head? = some c) (hmark' : ∃ c, IsMark c ∧ text'.head? = some c)
    (h : opening mode ++ text = opening other ++ text') : mode = other ∧ text = text' := by
  have hname (rest : List Char) : ¬∃ c, IsMark c ∧ ('r' :: rest).head? = some c := by
    intro hrest
    obtain ⟨c, hc, hhead⟩ := hrest
    cases hhead
    exact absurd hc (by decide)
  cases mode with
  | position =>
    cases other with
    | position => exact ⟨rfl, List.append_cancel_left h⟩
    | immediate => simp [opening] at h
    | relative =>
      have htext : text = 'r' :: 'b' :: text' := (List.cons.inj h).2
      rw [htext] at hmark
      exact absurd hmark (hname _)
  | immediate =>
    cases other with
    | immediate => exact ⟨rfl, List.append_cancel_left h⟩
    | position | relative => simp [opening] at h
  | relative =>
    cases other with
    | position =>
      have htext : 'r' :: 'b' :: text = text' := (List.cons.inj h).2
      rw [← htext] at hmark'
      exact absurd hmark' (hname _)
    | immediate => simp [opening] at h
    | relative => exact ⟨rfl, List.append_cancel_left h⟩

theorem startsOutside_closing (mode : Mode) {rest : List Char} (h : StartsOutside IsMark rest) :
    StartsOutside IsMark (closing mode ++ rest) := by
  cases mode with
  | position | relative => exact startsOutside_of_head? rfl (by decide)
  | immediate => exact h

theorem legible : Legible (fun parameter : Parameter => parameter.text.toList)
    (StartsOutside IsMark) := by
  intro parameter other rest rest' hrest hrest' h
  obtain ⟨mode, raw⟩ := parameter
  obtain ⟨mode', raw'⟩ := other
  simp only [toList_text, List.append_assoc] at h
  obtain ⟨rfl, hnumeral⟩ := opening_inj ((standsFor_numeral mode raw).exists_head? _)
    ((standsFor_numeral mode' raw').exists_head? _) h
  obtain ⟨rfl, hend⟩ := Numeral.legible_of_standsFor (standsFor_numeral mode)
    (startsOutside_closing mode hrest) (startsOutside_closing mode hrest') hnumeral
  exact ⟨rfl, List.append_cancel_left hend⟩

end Parameter

namespace Instruction

/-- What comes after the name of the operation. -/
def operands : List Parameter → List Char
  | [] => []
  | parameters =>
    ' ' :: [',', ' '].intercalate (parameters.map fun parameter => parameter.text.toList)

theorem toList_text (instruction : Instruction) : instruction.text.toList =
    instruction.opcode.mnemonic.toList ++ operands instruction.parameters := by
  rw [text]
  cases instruction.parameters with
  | nil => exact (List.append_nil _).symm
  | cons parameter parameters =>
    dsimp only
    rw [String.toList_append, String.toList_append, String.toList_intercalate, List.map_map,
      List.append_assoc]
    rfl

theorem separates_operands : Separates [',', ' '] (StartsOutside IsMark) (· = []) where
  between rest := startsOutside_of_head? rfl (by decide)
  behind rest h := by
    intro c hc
    rw [h] at hc
    cases hc
  apart rest h hprefix := by
    rw [h] at hprefix
    cases List.prefix_nil.mp hprefix

theorem operands_injective : Function.Injective operands := by
  intro parameters others h
  have hstart (parameter : Parameter) (rest : List Char) : parameter.text.toList ++ rest ≠ [] := by
    obtain ⟨mode, raw⟩ := parameter
    rw [Parameter.toList_text]
    cases mode <;> simp [Parameter.opening]
  have hlists := Parameter.legible.intercalate separates_operands hstart
  cases parameters with
  | nil =>
    cases others with
    | nil => rfl
    | cons other others => cases h
  | cons parameter parameters =>
    cases others with
    | nil => cases h
    | cons other others => exact hlists.injective rfl (List.cons.inj h).2

theorem startsOutside_operands (parameters : List Parameter) :
    StartsOutside (· ≠ ' ') (operands parameters) := by
  cases parameters with
  | nil => exact fun c hc => by cases hc
  | cons parameter parameters => exact startsOutside_of_head? rfl (by decide)

/-- The disassembly says all but what the unused digits of the packed word are. -/
theorem eq_of_text_eq {instruction other : Instruction} (h : instruction.text = other.text) :
    instruction.opcode = other.opcode ∧ instruction.parameters = other.parameters := by
  have hlist := congrArg String.toList h
  rw [toList_text, toList_text] at hlist
  obtain ⟨hopcode, hparameters⟩ := Opcode.legible (startsOutside_operands _)
    (startsOutside_operands _) hlist
  exact ⟨hopcode, operands_injective hparameters⟩

end Instruction

namespace Log.Event

theorem message_fetched (processor : Processor) (instruction : Instruction) :
    message (.fetched processor instruction) = processor.text ++ ": " ++ instruction.text := rfl

/-- Two records of fetched instructions with the same text are about the same processor, and about
the same operation with the same parameters, which the disassembly says by itself. -/
theorem fetched_unambiguous :
    (∀ {processor other : Processor} {instruction next : Instruction},
      message (.fetched processor instruction) = message (.fetched other next) →
      processor = other ∧ instruction.opcode = next.opcode ∧
        instruction.parameters = next.parameters) ∧
    ∀ {instruction next : Instruction}, instruction.text = next.text →
      instruction.opcode = next.opcode ∧ instruction.parameters = next.parameters := by
  refine ⟨?_, Instruction.eq_of_text_eq⟩
  intro processor other instruction next h
  have hcolon (rest : List Char) : StartsOutside (· ≠ ':') (": ".toList ++ rest) :=
    startsOutside_of_head? rfl (by decide)
  rw [message_fetched, message_fetched] at h
  have hlist := congrArg String.toList h
  simp only [String.toList_append, List.append_assoc] at hlist
  obtain ⟨rfl, hrest⟩ := Processor.legible (hcolon _) (hcolon _) hlist
  have htext := String.toList_injective (List.append_cancel_left hrest)
  exact ⟨rfl, Instruction.eq_of_text_eq htext⟩

/-- Two instructions that differ in a digit without meaning, fetched by one processor. -/
theorem fetched_unambiguous_unused :
    let processor : Processor := ⟨2, -34, .afterOutput, [7, -1], []⟩
    let instruction : Instruction := ⟨203, .input ⟨.relative, -34⟩⟩
    let next : Instruction := ⟨1203, .input ⟨.relative, -34⟩⟩
    message (.fetched processor instruction) =
        "PC:2 RB:-34 IN:[7, -1] OUT:[] AfterOutput: IN [rb-34]" ∧
      message (.fetched processor next) = message (.fetched processor instruction) ∧
      next ≠ instruction ∧ next.opcode = instruction.opcode ∧
      next.parameters = instruction.parameters := by
  intro processor instruction next
  have htext : message (.fetched processor next) = message (.fetched processor instruction) := rfl
  obtain ⟨-, hopcode, hparameters⟩ := fetched_unambiguous.1 htext
  have hshown : processor.text ++ ": " ++ instruction.text =
      "PC:2 RB:-34 IN:[7, -1] OUT:[] AfterOutput: IN [rb-34]" := by cbv
  exact ⟨hshown, htext, by decide, hopcode, hparameters⟩

end Log.Event

end Intcode
