import Mathlib
import Intcode.Command.Options

/-!
What a list of arguments means, told by its groups without reading it from the left. Every list can
be cut into groups in one way. The first group that asks for help or is at fault decides on the
whole list. If there is none, each option is what the last group that sets it says, the first
positional argument is the path, and the others are the inputs.
-/
namespace Intcode.Command

namespace Group

/-- The arguments that are not positional unless an option takes them as its value. -/
def names : List String := ["--chain", "--loop", "--entry", "--sparse", "--dump", "-h", "--help"]

/-- How a group is written. -/
inductive Spells : List String → Group → Prop
  | phases (wiring : Wiring) (text : String) :
    Spells [optionName wiring, text] (.wiring wiring (some text))
  | noPhases (wiring : Wiring) : Spells [optionName wiring] (.wiring wiring none)
  | entry (text : String) : Spells ["--entry", text] (.entry (some text))
  | noEntry : Spells ["--entry"] (.entry none)
  | sparse : Spells ["--sparse"] .sparse
  | dump : Spells ["--dump"] .dump
  | help {text : String} (h : text = "-h" ∨ text = "--help") : Spells [text] .help
  | positional {text : String} (h : text ∉ names) : Spells [text] (.positional text)

/-- The value is there if the group has to have one. -/
def Whole : Group → Prop
  | .wiring _ none | .entry none => False
  | _ => True

/-- The phases asked for, as they are written. -/
def wiring? : Group → Option (Wiring × String)
  | .wiring connection phases => phases.map fun text => (connection, text)
  | _ => none

def entry? : Group → Option String
  | .entry address => address
  | _ => none

def positional? : Group → Option String
  | .positional text => some text
  | _ => none

/-- What a group decides on the whole list: it asks for help or is at fault, the latter perhaps only
because of the groups before it. -/
inductive Decides (before : List Group) : Group → Request → Prop
  | help : Decides before .help .help
  | missingPhases (wiring : Wiring) :
    Decides before (.wiring wiring none) (.misuse (.missingPhases wiring))
  | badPhases {wiring : Wiring} {text : String} {cause : Listing.BadItem}
      (h : Listing.parse text = .error cause) :
      Decides before (.wiring wiring (some text)) (.misuse (.badPhases text cause))
  | missingEntry : Decides before (.entry none) (.misuse .missingEntry)
  | badEntry {text : String} {cause : Numeral.Fault}
      (h : Numeral.read text.toList = .error cause) :
      Decides before (.entry (some text)) (.misuse (.badEntry text cause))
  | badInput {first text : String} {cause : Numeral.Fault}
      (hpath : .positional first ∈ before) (h : Numeral.read text.toList = .error cause) :
      Decides before (.positional text) (.misuse (.badInput text cause))

end Group

/-- A list of arguments in pieces, each of which is a group. Only the last group may be without the
value that it has to have, since a value is whatever comes next. -/
structure Cut (pieces : List (List String)) (groups : List Group) : Prop where
  spells : List.Forall₂ Group.Spells pieces groups
  whole : ∀ group ∈ groups.dropLast, group.Whole

/-- None of the groups decides in its place. -/
def Acceptable (groups : List Group) : Prop :=
  ∀ before group after, groups = before ++ group :: after →
    ∀ request, ¬Group.Decides before group request

/-- The options that groups stand for together. -/
structure Reads (groups : List Group) (options : Options) : Prop where
  wiring : Option.Rel (fun asked read => asked.1 = read.1 ∧ Listing.parse asked.2 = .ok read.2)
    (groups.reverse.findSome? Group.wiring?) options.wiring
  entry : Option.Rel (fun text address => Numeral.read text.toList = .ok address)
    (groups.reverse.findSome? Group.entry?) options.entry
  sparse : options.sparse = true ↔ .sparse ∈ groups
  dump : options.dump = true ↔ .dump ∈ groups
  path : options.path = groups.findSome? Group.positional?
  inputs : List.Forall₂ (fun text input => Numeral.read text.toList = .ok input)
    (groups.filterMap Group.positional?).tail options.inputs

namespace Group

variable {name text : String} {opened : Option String → Group}

theorem opened?_optionName (wiring : Wiring) :
    opened? (optionName wiring) = some (.wiring wiring) := by
  cases wiring with
  | series => rfl
  | loop => rfl

theorem eq_of_opened (h : opened? name = some opened) :
    (∃ wiring, name = optionName wiring ∧ opened = .wiring wiring) ∨
      name = "--entry" ∧ opened = .entry := by
  unfold opened? at h
  split at h
  · cases h
    exact .inl ⟨.series, rfl, rfl⟩
  · cases h
    exact .inl ⟨.loop, rfl, rfl⟩
  · cases h
    exact .inr ⟨rfl, rfl⟩
  · cases h

theorem spells_opened (h : opened? name = some opened) (value : Option String) :
    Spells (name :: value.toList) (opened value) := by
  rcases eq_of_opened h with ⟨wiring, rfl, rfl⟩ | ⟨rfl, rfl⟩
  · cases value with
    | none => exact .noPhases wiring
    | some text => exact .phases wiring text
  · cases value with
    | none => exact .noEntry
    | some text => exact .entry text

theorem whole_opened (h : opened? name = some opened) (value : String) :
    (opened (some value)).Whole := by
  rcases eq_of_opened h with ⟨wiring, rfl, rfl⟩ | ⟨rfl, rfl⟩
  · trivial
  · trivial

theorem opened?_of_notMem (h : text ∉ names) :
    opened? text = none ∧ single text = .positional text := by
  simp only [names, List.mem_cons, List.not_mem_nil, or_false, not_or] at h
  obtain ⟨hchain, hloop, hentry, hsparse, hdump, hshort, hlong⟩ := h
  constructor
  · unfold opened?
    split <;> first | contradiction | rfl
  · unfold single
    split <;> first | contradiction | rfl

theorem spells_single (h : opened? text = none) :
    Spells [text] (single text) ∧ (single text).Whole := by
  by_cases hname : text ∈ names
  · simp only [names, List.mem_cons, List.not_mem_nil, or_false] at hname
    obtain rfl | rfl | rfl | rfl | rfl | rfl | rfl := hname
    · cases h
    · cases h
    · cases h
    · exact ⟨.sparse, trivial⟩
    · exact ⟨.dump, trivial⟩
    · exact ⟨.help (.inl rfl), trivial⟩
    · exact ⟨.help (.inr rfl), trivial⟩
  · rw [(opened?_of_notMem hname).2]
    exact ⟨.positional hname, trivial⟩

end Group

section Cutting

variable {name text : String} {opened : Option String → Group}

theorem groups_opened (h : Group.opened? name = some opened) : groups [name] = [opened none] := by
  rw [groups, h]

theorem groups_opened_cons (h : Group.opened? name = some opened) (value : String)
    (rest : List String) : groups (name :: value :: rest) = opened (some value) :: groups rest := by
  rw [groups, h]

theorem groups_single_cons (h : Group.opened? text = none) (rest : List String) :
    groups (text :: rest) = Group.single text :: groups rest := by
  cases rest with
  | nil => rw [groups, groups, h]
  | cons next rest => rw [groups, h]

variable {piece : List String} {group : Group}

theorem Group.Spells.groups_append (h : Group.Spells piece group) (hwhole : group.Whole)
    (rest : List String) : groups (piece ++ rest) = group :: groups rest := by
  cases h with
  | phases wiring text => exact groups_opened_cons (Group.opened?_optionName wiring) text rest
  | noPhases | noEntry => exact hwhole.elim
  | entry text => exact groups_opened_cons rfl text rest
  | sparse | dump => exact groups_single_cons rfl rest
  | help h =>
    obtain rfl | rfl := h
    · exact groups_single_cons rfl rest
    · exact groups_single_cons rfl rest
  | positional h =>
    obtain ⟨hopened, hsingle⟩ := Group.opened?_of_notMem h
    exact (groups_single_cons hopened rest).trans (by rw [hsingle])

theorem Group.Spells.groups_eq (h : Group.Spells piece group) : groups piece = [group] := by
  by_cases hwhole : group.Whole
  · have hpiece := h.groups_append hwhole []
    rwa [List.append_nil, groups] at hpiece
  · cases h with
    | noPhases wiring => exact groups_opened (Group.opened?_optionName wiring)
    | noEntry => rfl
    | _ => exact absurd trivial hwhole

variable {pieces : List (List String)} {rest : List Group}

theorem Cut.cons (hpiece : Group.Spells piece group) (hwhole : group.Whole)
    (h : Cut pieces rest) : Cut (piece :: pieces) (group :: rest) where
  spells := .cons hpiece h.spells
  whole := by
    cases rest with
    | nil => simp
    | cons next rest =>
      rw [List.dropLast_cons_cons]
      exact List.forall_mem_cons.mpr ⟨hwhole, h.whole⟩

theorem Cut.last (h : Group.Spells piece group) : Cut [piece] [group] where
  spells := .cons h .nil
  whole := by simp

/-- There is one way to cut a list. -/
theorem Cut.groups_flatten {asked : List Group} (h : Cut pieces asked) :
    groups pieces.flatten = asked := by
  obtain ⟨hspells, hwhole⟩ := h
  induction hspells with
  | nil => rw [List.flatten_nil, groups]
  | cons hpiece hrest ih =>
    rw [List.flatten_cons]
    cases hrest with
    | nil =>
      rw [List.flatten_nil, List.append_nil]
      exact hpiece.groups_eq
    | cons hnext hrest =>
      rw [List.dropLast_cons_cons, List.forall_mem_cons] at hwhole
      rw [hpiece.groups_append hwhole.1, ih hwhole.2]

theorem exists_cut (arguments : List String) :
    ∃ pieces, Cut pieces (groups arguments) ∧ pieces.flatten = arguments := by
  induction arguments using groups.induct with
  | case1 => exact ⟨[], ⟨.nil, by simp [groups]⟩, rfl⟩
  | case2 name opened h =>
    rw [groups_opened h]
    exact ⟨[[name]], .last (Group.spells_opened h none), rfl⟩
  | case3 text h =>
    rw [groups_single_cons h, groups]
    exact ⟨[[text]], .last (Group.spells_single h).1, rfl⟩
  | case4 name value rest opened h ih =>
    obtain ⟨pieces, hcut, rfl⟩ := ih
    rw [groups_opened_cons h]
    have hspells := Group.spells_opened h (some value)
    exact ⟨[name, value] :: pieces, hcut.cons hspells (Group.whole_opened h value), rfl⟩
  | case5 text next rest h ih =>
    obtain ⟨pieces, hcut, hpieces⟩ := ih
    obtain ⟨hspells, hwhole⟩ := Group.spells_single h
    rw [groups_single_cons h]
    refine ⟨[text] :: pieces, hcut.cons hspells hwhole, ?_⟩
    rw [List.flatten_cons, hpieces, List.singleton_append]

end Cutting

section Reading

variable {before : List Group} {options : Options} {group : Group} {request : Request}

theorem Reads.nil : Reads [] {} where
  wiring := .none
  entry := .none
  sparse := by simp
  dump := by simp
  path := rfl
  inputs := .nil

theorem mem_positionals {text : String} :
    text ∈ before.filterMap Group.positional? ↔ .positional text ∈ before := by
  rw [List.mem_filterMap]
  constructor
  · intro h
    obtain ⟨group, hmem, htext⟩ := h
    cases group with
    | positional =>
      cases htext
      exact hmem
    | _ => cases htext
  · intro h
    exact ⟨_, h, rfl⟩

theorem Group.Decides.add_eq (h : Group.Decides before group request)
    (hreads : Reads before options) : options.add group = request := by
  cases h with
  | help | missingPhases | missingEntry => rfl
  | badPhases h | badEntry h => rw [Options.add, h]
  | badInput hfirst h =>
    have hpath : options.path ≠ none := by
      rw [hreads.path, ← List.head?_filterMap, ne_eq, List.head?_eq_none_iff]
      exact List.ne_nil_of_mem (mem_positionals.mpr hfirst)
    obtain ⟨path, hpath⟩ := Option.ne_none_iff_exists'.mp hpath
    rw [Options.add, hpath]
    dsimp only
    rw [h]

/-- What one more group changes, unless it decides on the whole list. -/
theorem Reads.add (hreads : Reads before options)
    (h : ∀ request, ¬Group.Decides before group request) :
    ∃ next, options.add group = .run next ∧ Reads (before ++ [group]) next := by
  obtain ⟨hwiring, hentry, hsparse, hdump, hpath, hinputs⟩ := hreads
  cases group with
  | wiring wiring phases =>
    cases phases with
    | none => exact absurd (.missingPhases wiring) (h _)
    | some text =>
      cases hparse : Listing.parse text with
      | error cause => exact absurd (.badPhases hparse) (h _)
      | ok phases =>
        refine ⟨_, by rw [Options.add, hparse], ?_⟩
        constructor
        case wiring => simpa [List.findSome?_cons, Group.wiring?] using hparse
        all_goals simpa [List.filterMap_cons, Group.entry?, Group.positional?]
  | entry address =>
    cases address with
    | none => exact absurd .missingEntry (h _)
    | some text =>
      cases hread : Numeral.read text.toList with
      | error cause => exact absurd (.badEntry hread) (h _)
      | ok address =>
        refine ⟨_, by rw [Options.add, hread], ?_⟩
        constructor
        case entry => simpa [List.findSome?_cons, Group.entry?] using hread
        all_goals simpa [List.filterMap_cons, Group.wiring?, Group.positional?]
  | sparse =>
    refine ⟨_, rfl, ?_⟩
    constructor
    case sparse => simp
    all_goals simpa [List.filterMap_cons, Group.wiring?, Group.entry?, Group.positional?]
  | dump =>
    refine ⟨_, rfl, ?_⟩
    constructor
    case dump => simp
    all_goals simpa [List.filterMap_cons, Group.wiring?, Group.entry?, Group.positional?]
  | help => exact absurd .help (h _)
  | positional text =>
    -- Only the first positional argument may be any text.
    rw [← List.head?_filterMap] at hpath
    cases hpositionals : before.filterMap Group.positional? with
    | nil =>
      rw [hpositionals] at hpath hinputs
      refine ⟨_, by rw [Options.add, hpath]; rfl, ?_⟩
      constructor
      case path =>
        rw [← List.head?_filterMap, List.filterMap_append, hpositionals]
        rfl
      case inputs =>
        rw [List.filterMap_append, hpositionals]
        exact hinputs
      all_goals simpa [Group.wiring?, Group.entry?]
    | cons first more =>
      rw [hpositionals] at hpath hinputs
      cases hread : Numeral.read text.toList with
      | error cause =>
        have hfirst : first ∈ before.filterMap Group.positional? := by simp [hpositionals]
        exact absurd (.badInput (mem_positionals.mp hfirst) hread) (h _)
      | ok input =>
        refine ⟨_, by rw [Options.add, hpath]; dsimp only [List.head?_cons]; rw [hread], ?_⟩
        constructor
        case path =>
          rw [← List.head?_filterMap, List.filterMap_append, hpositionals]
          rfl
        case inputs =>
          rw [List.filterMap_append, hpositionals]
          exact List.rel_append hinputs (.cons hread .nil)
        all_goals simpa [Group.wiring?, Group.entry?]

/-- Whether one more group can be accepted is up to it and the groups before it. -/
theorem acceptable_concat : Acceptable (before ++ [group]) ↔
    Acceptable before ∧ ∀ request, ¬Group.Decides before group request := by
  constructor
  · intro h
    refine ⟨?_, h before group [] rfl⟩
    intro earlier first after hbefore
    apply h earlier first (after ++ [group])
    rw [hbefore, List.append_assoc, List.cons_append]
  · intro h earlier first after hgroups
    obtain ⟨hbefore, hgroup⟩ := h
    rcases List.eq_nil_or_concat after with rfl | ⟨between, last, rfl⟩
    · obtain ⟨rfl, hfirst⟩ := List.append_inj' hgroups rfl
      cases hfirst
      exact hgroup
    · rw [List.concat_eq_append, ← List.cons_append, ← List.append_assoc] at hgroups
      exact hbefore earlier first between (List.append_inj_left' hgroups rfl)

theorem Options.addAll_append {options next : Options} {before : List Group}
    (h : options.addAll before = .run next) (after : List Group) :
    options.addAll (before ++ after) = next.addAll after := by
  induction before generalizing options with
  | nil =>
    cases h
    rfl
  | cons group rest ih =>
    rw [addAll] at h
    rw [List.cons_append, addAll]
    cases hadd : options.add group with
    | run next =>
      rw [hadd] at h
      exact ih h
    | help | misuse =>
      rw [hadd] at h
      cases h

/-- A list in which no group decides sets the options that its groups stand for together. -/
theorem Acceptable.exists_reads {asked : List Group} (h : Acceptable asked) :
    ∃ options, ({} : Options).addAll asked = .run options ∧ Reads asked options := by
  induction asked using List.reverseRecOn with
  | nil => exact ⟨{}, rfl, .nil⟩
  | append_singleton before group ih =>
    obtain ⟨hbefore, hgroup⟩ := acceptable_concat.mp h
    obtain ⟨options, hoptions, hreads⟩ := ih hbefore
    obtain ⟨next, hadd, hnext⟩ := hreads.add hgroup
    refine ⟨next, ?_, hnext⟩
    rw [Options.addAll_append hoptions, Options.addAll, hadd]
    rfl

theorem Group.Decides.addAll_eq (h : Group.Decides before group request)
    (hbefore : Acceptable before) (after : List Group) :
    ({} : Options).addAll (before ++ group :: after) = request := by
  obtain ⟨options, hoptions, hreads⟩ := hbefore.exists_reads
  rw [Options.addAll_append hoptions, Options.addAll, h.add_eq hreads]
  cases h <;> rfl

theorem exists_first_decides {asked : List Group} (h : ¬Acceptable asked) :
    ∃ before group after request, asked = before ++ group :: after ∧ Acceptable before ∧
      Group.Decides before group request := by
  induction asked using List.reverseRecOn with
  | nil =>
    refine absurd ?_ h
    intro before group after hnil
    simp at hnil
  | append_singleton asked last ih =>
    by_cases hasked : Acceptable asked
    · have hlast : ∃ request, Group.Decides asked last request := by
        by_contra hlast
        exact h (acceptable_concat.mpr ⟨hasked, not_exists.mp hlast⟩)
      obtain ⟨request, hrequest⟩ := hlast
      exact ⟨asked, last, [], request, rfl, hasked, hrequest⟩
    · obtain ⟨before, group, after, request, rfl, hbefore, hgroup⟩ := ih hasked
      refine ⟨before, group, after ++ [last], request, ?_, hbefore, hgroup⟩
      rw [List.append_assoc, List.cons_append]

/-- A list is accepted just if no group decides. -/
theorem exists_run_iff {asked : List Group} :
    (∃ options, ({} : Options).addAll asked = .run options) ↔ Acceptable asked := by
  constructor
  · intro h
    obtain ⟨options, hrun⟩ := h
    by_contra hasked
    obtain ⟨before, group, after, request, rfl, hbefore, hgroup⟩ := exists_first_decides hasked
    rw [hgroup.addAll_eq hbefore] at hrun
    subst hrun
    cases hgroup
  · intro h
    obtain ⟨options, hrun, -⟩ := h.exists_reads
    exact ⟨options, hrun⟩

theorem Acceptable.whole {asked : List Group} (h : Acceptable asked) :
    ∀ group ∈ asked, group.Whole := by
  intro group hgroup
  obtain ⟨before, after, rfl⟩ := List.append_of_mem hgroup
  cases group with
  | wiring wiring phases =>
    cases phases with
    | none => exact absurd (.missingPhases wiring) (h before _ after rfl _)
    | some text => trivial
  | entry address =>
    cases address with
    | none => exact absurd .missingEntry (h before _ after rfl _)
    | some text => trivial
  | _ => trivial

end Reading

section Flags

/-- The same options, with what is said to be asked for as well. -/
def Options.raise (sparse dump : Bool) (options : Options) : Options :=
  { options with sparse := sparse || options.sparse, dump := dump || options.dump }

/-- The same request, with what is said to be asked for as well if anything is run. -/
def Request.raise (sparse dump : Bool) : Request → Request
  | .run options => .run (options.raise sparse dump)
  | decided => decided

namespace Options

variable {sparse dump : Bool} (options : Options)

theorem add_raise (group : Group) :
    (options.raise sparse dump).add group = (options.add group).raise sparse dump := by
  cases group with
  | wiring wiring phases =>
    cases phases with
    | none => rfl
    | some text =>
      rw [add, add]
      cases Listing.parse text <;> rfl
  | entry address =>
    cases address with
    | none => rfl
    | some text =>
      rw [add, add]
      cases Numeral.read text.toList <;> rfl
  | positional text =>
    have hpath : (options.raise sparse dump).path = options.path := rfl
    rw [add, add, hpath]
    cases options.path with
    | none => rfl
    | some path =>
      dsimp only
      cases Numeral.read text.toList <;> rfl
  | sparse => simp [add, raise, Request.raise]
  | dump => simp [add, raise, Request.raise]
  | help => rfl

theorem addAll_raise (groups : List Group) :
    (options.raise sparse dump).addAll groups = (options.addAll groups).raise sparse dump := by
  induction groups generalizing options with
  | nil => rfl
  | cons group rest ih =>
    rw [addAll, addAll, add_raise]
    cases options.add group with
    | run next => exact ih next
    | help | misuse => rfl

/-- It makes no difference where among the groups a flag stands. -/
theorem addAll_insert {flag : Group}
    (hflag : ∀ options : Options, options.add flag = .run (options.raise sparse dump))
    (before after : List Group) :
    options.addAll (before ++ flag :: after) =
      (options.addAll (before ++ after)).raise sparse dump := by
  induction before generalizing options with
  | nil =>
    rw [List.nil_append, List.nil_append, addAll, hflag]
    exact options.addAll_raise after
  | cons group rest ih =>
    rw [List.cons_append, List.cons_append, addAll, addAll]
    cases options.add group with
    | run next => exact ih next
    | help | misuse => rfl

end Options

theorem exists_raise {flag : String} {group : Group} (hflag : flag = "--sparse" ∨ flag = "--dump")
    (h : Group.Spells [flag] group) : ∃ sparse dump,
      ∀ options : Options, options.add group = .run (options.raise sparse dump) := by
  have hgroup := h.groups_eq
  obtain rfl | rfl := hflag
  · cases hgroup
    exact ⟨true, false, fun options => rfl⟩
  · cases hgroup
    exact ⟨false, true, fun options => rfl⟩

theorem exists_append_of_forall₂ {α β : Type} {R : α → β → Prop} {left right : List α}
    {together : List β} (h : List.Forall₂ R (left ++ right) together) :
    ∃ left' right', together = left' ++ right' ∧ List.Forall₂ R left left' ∧
      List.Forall₂ R right right' :=
  ⟨_, _, (List.take_append_drop left.length together).symm,
    (List.forall₂_take_append together left right h.flip).flip,
    (List.forall₂_drop_append together left right h.flip).flip⟩

/-- Pieces can change places if each of them has all that belongs to it. -/
theorem Cut.move {piece : List String} {left right left' right' : List (List String)}
    {asked : List Group} (h : Cut (left ++ piece :: right) asked)
    (hwhole : ∀ group ∈ asked, group.Whole) (hmoved : left ++ right = left' ++ right') :
    ∃ before group after before' after', asked = before ++ group :: after ∧
      Group.Spells piece group ∧ before ++ after = before' ++ after' ∧
      Cut (left' ++ piece :: right') (before' ++ group :: after') := by
  obtain ⟨before, rest, rfl, hleft, hrest⟩ := exists_append_of_forall₂ h.spells
  cases hrest with
  | @cons _ group _ after hpiece hright =>
    have hothers : List.Forall₂ Group.Spells (left' ++ right') (before ++ after) :=
      hmoved ▸ List.rel_append hleft hright
    obtain ⟨before', after', hsame, hleft', hright'⟩ := exists_append_of_forall₂ hothers
    refine ⟨before, group, after, before', after', rfl, hpiece, hsame,
      List.rel_append hleft' (.cons hpiece hright'), ?_⟩
    intro other hother
    apply hwhole
    have hmem := List.perm_middle.mem_iff.mp (List.mem_of_mem_dropLast hother)
    rw [← hsame] at hmem
    exact List.perm_middle.mem_iff.mpr hmem

end Flags

/-- Every list of arguments can be cut into groups, and however that is done, the first group that
decides in its place decides on the whole list. If there is none, the list is accepted and sets the
options that its groups stand for together; then a flag can stand anywhere between the others. -/
theorem arguments_read_by_groups (arguments : List String) :
    (∃ pieces asked, Cut pieces asked ∧ pieces.flatten = arguments) ∧
    ∀ pieces asked, Cut pieces asked → pieces.flatten = arguments →
      (¬Acceptable asked → ∃ before group after request, asked = before ++ group :: after ∧
        Acceptable before ∧ Group.Decides before group request ∧
        Request.ofArguments arguments = request) ∧
      (Acceptable asked → ∃ options, Request.ofArguments arguments = .run options ∧
        Reads asked options) ∧
      ∀ flag left right left' right', flag = "--sparse" ∨ flag = "--dump" →
        pieces = left ++ [flag] :: right → left ++ right = left' ++ right' →
        (∃ options, Request.ofArguments arguments = .run options) →
        Request.ofArguments (left' ++ [flag] :: right').flatten =
          Request.ofArguments arguments := by
  obtain ⟨pieces, hcut, hpieces⟩ := exists_cut arguments
  refine ⟨⟨pieces, groups arguments, hcut, hpieces⟩, ?_⟩
  clear! pieces
  intro pieces asked hcut hpieces
  subst hpieces
  have hrequest : Request.ofArguments pieces.flatten = ({} : Options).addAll asked := by
    rw [Request.ofArguments, hcut.groups_flatten]
  rw [hrequest]
  refine ⟨?_, Acceptable.exists_reads, ?_⟩
  · intro hasked
    obtain ⟨before, group, after, request, rfl, hbefore, hgroup⟩ := exists_first_decides hasked
    exact ⟨before, group, after, request, rfl, hbefore, hgroup, hgroup.addAll_eq hbefore after⟩
  · intro flag left right left' right' hflag hplace hmoved haccepted
    subst hplace
    have hwhole := (exists_run_iff.mp haccepted).whole
    obtain ⟨before, group, after, before', after', rfl, hgroup, hsame, hcut'⟩ :=
      hcut.move hwhole hmoved
    obtain ⟨sparse, dump, hraise⟩ := exists_raise hflag hgroup
    rw [Request.ofArguments, hcut'.groups_flatten, Options.addAll_insert _ hraise,
      Options.addAll_insert _ hraise, hsame]

/-- Of two entries the later counts, of two numbers the first is the path, and the flag can as well
stand in front of them all. -/
theorem arguments_read_by_groups_moved :
    let asked := [.entry (some "9"), .positional "-7", .sparse, .wiring .loop (some "9,8"),
      .positional "3", .entry (some "-4")]
    ∃ options, Reads asked options ∧
      Request.ofArguments
        ["--entry", "9", "-7", "--sparse", "--loop", "9,8", "3", "--entry", "-4"] = .run options ∧
      Request.ofArguments
        ["--sparse", "--entry", "9", "-7", "--loop", "9,8", "3", "--entry", "-4"] =
        .run options := by
  intro asked
  let left : List (List String) := [["--entry", "9"], ["-7"]]
  let right : List (List String) := [["--loop", "9,8"], ["3"], ["--entry", "-4"]]
  have hspells : List.Forall₂ Group.Spells (left ++ ["--sparse"] :: right) asked := by
    refine .cons (.entry "9") (.cons (.positional (by decide)) (.cons .sparse ?_))
    exact .cons (.phases .loop "9,8") (.cons (.positional (by decide)) (.cons (.entry "-4") .nil))
  have hcut : Cut (left ++ ["--sparse"] :: right) asked := ⟨hspells, by simp [asked, Group.Whole]⟩
  have haccepted : ∃ options, ({} : Options).addAll asked = .run options := ⟨_, by cbv⟩
  obtain ⟨-, hreads, hmove⟩ := (arguments_read_by_groups _).2 _ asked hcut rfl
  obtain ⟨options, hrun, hoptions⟩ := hreads (exists_run_iff.mp haccepted)
  refine ⟨options, hoptions, hrun, ?_⟩
  rw [← hrun]
  exact hmove "--sparse" left right [] (left ++ right) (.inl rfl) rfl rfl ⟨options, hrun⟩

end Intcode.Command
