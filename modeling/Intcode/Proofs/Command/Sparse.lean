import Intcode.Proofs.Command.Arguments
import Intcode.Proofs.Command.Dump
import Intcode.Proofs.Command.Solo

/-!
Plain runs on both kinds of store. The option for a sparse store changes no other option, and a
plain run shows nothing of its store before the dump: with the option the command ends in the same
way, reports the same, and prints the same up to the dump. From the dump of either store the memory
of the machine that has halted can be read back.
-/
namespace Intcode

section Options

namespace Command

/-- The same options, but with a sparse store. -/
def Options.sparsely (options : Options) : Options := { options with sparse := true }

/-- The same request, but with a sparse store if anything is run. -/
def Request.sparsely : Request → Request
  | .run options => .run options.sparsely
  | decided => decided

namespace Options

variable (options : Options)

/-- It makes no difference where among the arguments the option stands. -/
theorem addAll_insert_sparse (before after : List Group) :
    options.addAll (before ++ .sparse :: after) = (options.addAll (before ++ after)).sparsely := by
  have hflag (options : Options) : options.add .sparse = .run (options.raise true false) := rfl
  rw [options.addAll_insert hflag]
  cases options.addAll (before ++ after) <;> rfl

variable {options}

/-- Only an option for a circuit asks for one. -/
theorem wiring_eq_none {groups : List Group}
    (hgroups : ∀ wiring phases, Group.wiring wiring phases ∉ groups)
    (h : ({} : Options).addAll groups = .run options) : options.wiring = none := by
  obtain ⟨last, hlast, hreads⟩ := (exists_run_iff.mp ⟨options, h⟩).exists_reads
  cases h.symm.trans hlast
  have hnone : groups.reverse.findSome? Group.wiring? = none := by
    rw [List.findSome?_eq_none_iff]
    intro group hgroup
    cases group with
    | wiring wiring phases => exact absurd (List.mem_reverse.mp hgroup) (hgroups wiring phases)
    | _ => rfl
  have hwiring := hreads.wiring
  rw [hnone] at hwiring
  generalize options.wiring = read at hwiring ⊢
  cases hwiring with
  | none => rfl

end Options

end Command

end Options

namespace Command.Solo

variable {σ τ : Type} [Store σ] [Store τ]

/-- The runs differ at most in how the stores of their machines lay out the cells. -/
structure Alike (solo : Solo σ) (other : Solo τ) : Prop where
  machine : solo.machine.Alike other.machine
  printed_eq : solo.printed = other.printed

/-- The same outcome of runs that are left alike. -/
structure SameEnd (ended : Solo σ × Except SoloFailure Unit)
    (other : Solo τ × Except SoloFailure Unit) : Prop where
  alike : ended.1.Alike other.1
  outcome_eq : ended.2 = other.2

variable [LawfulStore σ] [LawfulStore τ] {solo : Solo σ} {other : Solo τ}

theorem Alike.turn (h : solo.Alike other) (budget : Nat) :
    (Solo.turn budget solo).Matches Alike (Option.Rel SameEnd) (Solo.turn budget other) := by
  have hround := h.machine.run Machine.endsRunToOutput budget
  unfold Solo.turn Machine.runToOutput
  rw [h.printed_eq]
  generalize iterate (Machine.turn Machine.endsRunToOutput) budget solo.machine = round
    at hround ⊢
  generalize iterate (Machine.turn Machine.endsRunToOutput) budget other.machine = round'
    at hround ⊢
  cases hround with
  | none => exact .stop .none
  | @some ended ended' hended =>
    obtain ⟨machine, result⟩ := ended
    obtain ⟨machine', result'⟩ := ended'
    obtain ⟨halike, rfl⟩ := hended
    match result with
    | .error fault => exact .stop (.some ⟨⟨halike, rfl⟩, rfl⟩)
    | .ok .halted => exact .stop (.some ⟨⟨halike, rfl⟩, rfl⟩)
    | .ok .ready => exact .next ⟨halike, rfl⟩
    | .ok .awaitingInput =>
      dsimp only
      rw [halike.processor_eq]
      exact .stop (.some ⟨⟨halike, rfl⟩, rfl⟩)
    | .ok .afterOutput =>
      dsimp only [Machine.pop?]
      rw [halike.processor_eq]
      cases machine'.toProcessor.pop? with
      | none => exact .stop (.some ⟨⟨halike, rfl⟩, rfl⟩)
      | some popped => exact .next ⟨halike.withProcessor popped.2, rfl⟩

theorem Alike.run (h : solo.Alike other) (budget : Nat) :
    Option.Rel SameEnd (Solo.run budget solo) (Solo.run budget other) := by
  have hrel := iterate_matches (fun _ _ halike => halike.turn budget) budget h
  unfold Solo.run
  generalize iterate (Solo.turn budget) budget solo = ended at hrel ⊢
  generalize iterate (Solo.turn budget) budget other = ended' at hrel ⊢
  cases hrel with
  | none => exact .none
  | some hended => exact hended

theorem start_alike (program inputs : List Word) (entry : Option Word) :
    (start (Machine.load program : Machine σ) entry inputs).Alike
      (start (Machine.load program : Machine τ) entry inputs) := by
  have hload : (Machine.load program : Machine σ).Alike
      (Machine.load (program ++ []) : Machine τ) := Machine.load_alike program 0
  rw [List.append_nil] at hload
  exact ⟨(hload.withProcessor { Processor.initial with pc := entry.getD 0 }).pushAll inputs, rfl⟩

end Command.Solo

namespace Command

open Transcript

section Quiet

variable {σ : Type}

theorem logging_none (records : List Log.Record) (transcript : Transcript) :
    transcript.logging none records = transcript := by
  have hnone : logText none records = "" := by
    have hfilter : records.filter (fun record => Log.admits none record.level) = [] := by
      exact List.filter_eq_nil_iff.mpr fun _ _ => Bool.false_ne_true
    rw [logText, hfilter]
    rfl
  rw [logging, hnone, String.empty_append]

/-- What a plain run that ends so reports, and its exit code. -/
def report : Except SoloFailure Unit → Transcript
  | .ok () => {}
  | .error cause => Transcript.failure cause.message none

/-- All that a plain run leaves behind if no log is kept. -/
def quietly [Dump σ] (options : Options) (last : Solo σ) (outcome : Except SoloFailure Unit) :
    Transcript :=
  { report outcome with
    output := wordLines last.printed ++ dumped options last outcome }

theorem quietly_dumps [Dump σ] {options : Options} (hdump : options.dump = true) (last : Solo σ) :
    quietly options last (.ok ()) =
      { output := wordLines last.printed ++ Dump.dump last.machine.store } := by
  rw [quietly, dumped, if_pos hdump]
  rfl

variable [Store σ] [Parking σ] [Dump σ]

theorem runSolo_none (budget : Nat) (options : Options) (machine : Machine σ) :
    runSolo budget none options machine =
      ((Solo.start machine options.entry options.inputs).run budget).map fun ended =>
        quietly options ended.1 ended.2 := by
  rw [runSolo]
  congr 1
  funext ended
  obtain ⟨last, outcome⟩ := ended
  dsimp only
  rw [logging_none]
  cases outcome with
  | error cause => rfl
  | ok =>
    rw [logging_none]
    rfl

end Quiet

/-- The same transcript, or the same up to the dumps of two stores with the same words in them. -/
inductive SameUpToDump : Transcript → Transcript → Prop
  | same (transcript : Transcript) : SameUpToDump transcript transcript
  | dumps (words : List Word) {dense : Dense} {sparse : Sparse}
      (hread : ∀ address, Store.read dense address = Store.read sparse address) :
      SameUpToDump { output := wordLines words ++ Dump.dump dense }
        { output := wordLines words ++ Dump.dump sparse }

theorem Solo.SameEnd.quietly {last : Solo Dense} {last' : Solo Sparse}
    {outcome outcome' : Except SoloFailure Unit} (h : SameEnd (last, outcome) (last', outcome'))
    (options : Options) :
    SameUpToDump (quietly options last outcome) (quietly options.sparsely last' outcome') := by
  obtain ⟨⟨halike, hprinted⟩, rfl⟩ := h
  dsimp only at halike hprinted
  cases outcome with
  | error cause =>
    rw [Command.quietly, Command.quietly, hprinted]
    exact .same _
  | ok =>
    rw [Command.quietly, Command.quietly, hprinted]
    cases hdump : options.dump with
    | false =>
      have hdump' : options.sparsely.dump = false := hdump
      simp only [dumped, hdump, hdump', Bool.false_eq_true, if_false]
      exact .same _
    | true =>
      have hdump' : options.sparsely.dump = true := hdump
      simp only [dumped, hdump, hdump', if_true]
      exact .dumps last'.printed halike.read_eq

section Run

variable {budget : Nat} {options : Options}

theorem rel_map {α β γ δ : Type} {R : α → β → Prop} {S : γ → δ → Prop} {f : α → γ} {g : β → δ}
    (hmap : ∀ {a b}, R a b → S (f a) (g b)) {left : Option α} {right : Option β}
    (h : Option.Rel R left right) : Option.Rel S (left.map f) (right.map g) := by
  cases h with
  | none => exact .none
  | some h => exact .some (hmap h)

theorem rel_same (ended : Option Transcript) : Option.Rel SameUpToDump ended ended := by
  cases ended with
  | none => exact .none
  | some transcript => exact .some (.same transcript)

theorem map_logging_none (records : List Log.Record) (ended : Option Transcript) :
    ended.map (logging none records) = ended := by
  have hid : logging none records = id := funext (logging_none records)
  rw [hid, Option.map_id_fun]
  rfl

theorem runProgram_sparsely (hwiring : options.wiring = none) (program : List Word) :
    Option.Rel SameUpToDump (runProgram budget none options program)
      (runProgram budget none options.sparsely program) := by
  have hwiring' : options.sparsely.wiring = none := hwiring
  have hsparse' : options.sparsely.sparse = true := rfl
  simp only [runProgram, hwiring, hwiring', hsparse', if_true]
  cases hsparse : options.sparse with
  | true =>
    have hsame : options.sparsely = options := by
      rw [Options.sparsely, ← hsparse]
    rw [hsame, if_pos rfl]
    exact rel_same _
  | false =>
    rw [if_neg Bool.false_ne_true, runSolo_none, runSolo_none]
    have hends := (Solo.start_alike (σ := Dense) (τ := Sparse) program options.inputs
      options.entry).run budget
    exact rel_map (fun hended => hended.quietly options) hends

theorem runFile_sparsely (hwiring : options.wiring = none) (path : String)
    (file : Except ReadFault String) :
    Option.Rel SameUpToDump (runFile budget none options path file)
      (runFile budget none options.sparsely path file) := by
  unfold runFile
  cases file with
  | error cause => exact rel_same _
  | ok text =>
    dsimp only
    cases Listing.parse text with
    | error cause => exact rel_same _
    | ok program =>
      dsimp only
      rw [map_logging_none, map_logging_none]
      exact runProgram_sparsely hwiring program

theorem run_sparsely {plain sparse : List String} {files : String → Except ReadFault String}
    (hrequest : Request.ofArguments sparse = (Request.ofArguments plain).sparsely)
    (hwiring : ∀ options, Request.ofArguments plain = .run options → options.wiring = none) :
    Option.Rel SameUpToDump (run budget none files plain) (run budget none files sparse) := by
  unfold run
  rw [hrequest]
  cases hplain : Request.ofArguments plain with
  | help | misuse => exact rel_same _
  | run options =>
    dsimp only [Request.sparsely]
    have hpath : options.sparsely.path = options.path := rfl
    rw [hpath]
    cases options.path with
    | none => exact rel_same _
    | some path =>
      dsimp only
      rw [map_logging_none, map_logging_none]
      exact runFile_sparsely (hwiring options hplain) path (files path)

/-- What the command comes to if it gets as far as a plain run. -/
theorem run_eq_runProgram {files : String → Except ReadFault String} {arguments : List String}
    {path text : String} {program : List Word}
    (hrequest : Request.ofArguments arguments = .run options) (hpath : options.path = some path)
    (hfile : files path = .ok text) (hparse : Listing.parse text = .ok program) :
    run budget none files arguments = runProgram budget none options program := by
  rw [run, hrequest]
  dsimp only
  rw [hpath]
  dsimp only
  rw [map_logging_none, hfile]
  unfold runFile
  dsimp only
  rw [hparse]
  exact map_logging_none _ _

theorem runProgram_dense (hwiring : options.wiring = none) (hsparse : options.sparse = false)
    (hdump : options.dump = true) {program : List Word} {last : Solo Dense}
    (hlast : (Solo.start (Machine.load program) options.entry options.inputs).run budget =
      some (last, .ok ())) :
    runProgram budget none options program =
      some { output := wordLines last.printed ++ Dump.dump last.machine.store } := by
  rw [runProgram, hwiring, hsparse]
  dsimp only
  rw [if_neg Bool.false_ne_true, runSolo_none, hlast, Option.map_some, quietly_dumps hdump]

theorem runProgram_sparse (hwiring : options.wiring = none) (hsparse : options.sparse = true)
    (hdump : options.dump = true) {program : List Word} {last : Solo Sparse}
    (hlast : (Solo.start (Machine.load program) options.entry options.inputs).run budget =
      some (last, .ok ())) :
    runProgram budget none options program =
      some { output := wordLines last.printed ++ Dump.dump last.machine.store } := by
  rw [runProgram, hwiring, hsparse]
  dsimp only
  rw [if_pos rfl, runSolo_none, hlast, Option.map_some, quietly_dumps hdump]

/-- For a plain run the option for a sparse store makes no difference before the dump. The dump of a
machine that has halted gives the words in all of its cells, each cell at most once, with either
store, and with a sparse one in ascending order. -/
theorem dumps_are_faithful {plain sparse : List String} {before after : List Group}
    (hplain : groups plain = before ++ after) (hsparse : groups sparse = before ++ .sparse :: after)
    (halone : ∀ wiring phases, Group.wiring wiring phases ∉ before ++ after)
    (files : String → Except ReadFault String) :
    (∀ budget,
      Option.Rel SameUpToDump (run budget none files plain) (run budget none files sparse)) ∧
    ∀ {options : Options} {path text : String} {program : List Word} {last : Solo Dense},
      Request.ofArguments plain = .run options → options.sparse = false → options.dump = true →
      options.path = some path → files path = .ok text → Listing.parse text = .ok program →
      Returns (fun budget =>
        (Solo.start (Machine.load program) options.entry options.inputs).run budget)
        (last, .ok ()) →
      ∃ dump dump' cells cells',
        Returns (fun budget => run budget none files plain)
          { output := wordLines last.printed ++ dump } ∧
        Returns (fun budget => run budget none files sparse)
          { output := wordLines last.printed ++ dump' } ∧
        readDense dump = some cells ∧ (cells.map Prod.fst).Nodup ∧
        readSparse dump' = some cells' ∧ (cells'.map Prod.fst).Pairwise (· < ·) ∧
        ∀ address, last.machine.read address = (Memory.ofCells cells).read address ∧
          last.machine.read address = (Memory.ofCells cells').read address := by
  have hrequest : Request.ofArguments sparse = (Request.ofArguments plain).sparsely := by
    rw [Request.ofArguments, Request.ofArguments, hplain, hsparse]
    exact Options.addAll_insert_sparse {} before after
  have hwiring (options : Options) (hoptions : Request.ofArguments plain = .run options) :
      options.wiring = none := by
    rw [Request.ofArguments, hplain] at hoptions
    exact Options.wiring_eq_none halone hoptions
  refine ⟨fun budget => run_sparsely hrequest hwiring, ?_⟩
  intro options path text program last hoptions hdense hdump hpath hfile hparse hreturns
  obtain ⟨budget, hlast⟩ := hreturns
  dsimp only at hlast
  have halone' := hwiring options hoptions
  have hends := (Solo.start_alike (σ := Dense) (τ := Sparse) program options.inputs
    options.entry).run budget
  rw [hlast] at hends
  obtain ⟨⟨last', outcome⟩, hlast', ⟨halike, hprinted⟩, houtcome⟩ := exists_of_rel_some hends
  dsimp only at halike hprinted houtcome
  subst houtcome
  obtain ⟨cells, hcells, hnodup, hmemory⟩ := exists_readDense_dump last.machine.store
  obtain ⟨cells', hcells', hascending, hmemory'⟩ := exists_readSparse_dump last'.machine.store
  refine ⟨_, _, cells, cells', ⟨budget, ?_⟩, ⟨budget, ?_⟩, hcells, hnodup, hcells', hascending, ?_⟩
  · exact (run_eq_runProgram hoptions hpath hfile hparse).trans
      (runProgram_dense halone' hdense hdump hlast)
  · have hoptions' : Request.ofArguments sparse = .run options.sparsely := by
      rw [hrequest, hoptions]
      rfl
    have hwiring' : options.sparsely.wiring = none := halone'
    rw [hprinted]
    exact (run_eq_runProgram hoptions' hpath hfile hparse).trans
      (runProgram_sparse hwiring' rfl hdump hlast')
  · intro address
    rw [hmemory, hmemory']
    exact ⟨rfl, halike.read_eq address⟩

/-- A program that writes the sum of two words into a cell far behind it. -/
theorem dumps_are_faithful_far :
    let files : String → Except ReadFault String := fun _ => .ok "1101,2,3,2000000,99"
    ∃ dump dump' cells cells',
      Returns (fun budget => run budget none files ["--dump", "p"]) { output := dump } ∧
      Returns (fun budget => run budget none files ["--dump", "--sparse", "p"])
        { output := dump' } ∧
      readDense dump = some cells ∧ readSparse dump' = some cells' ∧
      (Memory.ofCells cells).read 2000000 = .ok 5 ∧
      (Memory.ofCells cells').read 2000000 = .ok 5 := by
  intro files
  have hplain : groups ["--dump", "p"] = [.dump] ++ [.positional "p"] := by cbv
  have hsparse : groups ["--dump", "--sparse", "p"] = [.dump] ++ .sparse :: [.positional "p"] := by
    cbv
  have halone (wiring : Wiring) (phases : Option String) :
      Group.wiring wiring phases ∉ [.dump] ++ [.positional "p"] := by simp
  have hoptions : Request.ofArguments ["--dump", "p"] =
      .run { dump := true, path := some "p" } := by cbv
  have hparse : Listing.parse "1101,2,3,2000000,99" = .ok [1101, 2, 3, 2000000, 99] := by cbv
  have hrun : ((Solo.start (Machine.load [1101, 2, 3, 2000000, 99] : Machine Dense) none []).run
      2).map (fun ended => (ended.1.printed, ended.1.machine.read 2000000, ended.2)) =
      some ([], .ok 5, .ok ()) := by cbv
  obtain ⟨⟨last, outcome⟩, hlast, hended⟩ := Option.map_eq_some_iff.mp hrun
  simp only [Prod.mk.injEq] at hended
  obtain ⟨hprinted, hread, rfl⟩ := hended
  obtain ⟨dump, dump', cells, cells', hdump, hdump', hcells, _, hcells', _, hreads⟩ :=
    (dumps_are_faithful hplain hsparse halone files).2 hoptions rfl rfl rfl rfl hparse ⟨2, hlast⟩
  rw [hprinted] at hdump hdump'
  exact ⟨_, _, cells, cells', hdump, hdump', hcells, hcells', (hreads 2000000).1 ▸ hread,
    (hreads 2000000).2 ▸ hread⟩

end Run

end Command

end Intcode
