import SampleTools.Include.Cmdline
import SampleTools.Library.Cut

/-!
# What the command line parser accepts

The arguments that are parsed without an error are those that spell a list of items: long names
of options without a value, long names with a value behind `=` or in the next argument, clusters
of short names, the last one perhaps with a value, single dashes and arguments that begin with no
dash. Besides, no short name may belong to two options, and every needed option must have been
set. The options are then as the items say, in order, and the other arguments are kept.

## Main definitions

* `Item`, `Item.render`: an item, and how it is spelled
* `Item.Fits`: the options are declared as the item uses them
* `Item.sets`, `Item.kept`: the options it sets, and the argument it keeps
* `Parser.NeedsMet`: every needed option has been set
* `Parser.result`: the parser after some items

## Main results

* `Parser.parseArgs_render`: items that fit are parsed as they are spelled
* `Parser.parseArgs_sound`: without an error, items that fit were spelled
* `CmdOption.has_assignAll`, `CmdOption.actual_assignAll`: what becomes of an option
* `Parser.parse_accepts_iff`: exactly what is accepted, and what becomes of it
-/

namespace SampleTools

namespace Cmdline

/-- The option has the short name. -/
def HasShort (ds : List OptionDecl) (c : Char) (name : Arg) : Prop :=
  ∃ d ∈ ds, d.name = name ∧ name ≠ [] ∧ d.shortName = some c

/-- The short names, of options with a long name. -/
def shortNames (ds : List OptionDecl) : List Char :=
  (ds.filter fun d => d.name ≠ []).filterMap OptionDecl.shortName

/-- No two options have one short name. -/
def Unambiguous (ds : List OptionDecl) : Prop := (shortNames ds).Nodup

/-- What can be on a command line; a short name comes with the name of its option. -/
inductive Item
  | flag (name : Arg)
  | assign (name val : Arg)
  | value (name val : Arg)
  | shorts (flags : List (Char × Arg)) (last : Char × Arg)
  | shortsValue (flags : List (Char × Arg)) (last : Char × Arg) (val : Arg)
  | dash
  | positional (arg : Arg)

namespace Item

/-- The arguments. -/
def render : Item → List Arg
  | flag name => ['-' :: '-' :: name]
  | assign name val => ['-' :: '-' :: (name ++ '=' :: val)]
  | value name val => ['-' :: '-' :: name, val]
  | shorts flags last => ['-' :: (flags.map Prod.fst ++ [last.1])]
  | shortsValue flags last val => ['-' :: (flags.map Prod.fst ++ [last.1]), val]
  | dash => [['-']]
  | positional arg => [arg]

/-- A short name of an option without a value. -/
def ShortFlag (ds : List OptionDecl) (s : Char × Arg) : Prop :=
  HasShort ds s.1 s.2 ∧ IsFlag ds s.2

/-- The options are declared as the item uses them, and it is not spelled like another one. -/
def Fits (ds : List OptionDecl) : Item → Prop
  | flag name => '=' ∉ name ∧ IsFlag ds name
  | assign name val => '=' ∉ name ∧ Takes ds name val
  | value name val => '=' ∉ name ∧ Takes ds name val
  | shorts flags last =>
    (flags.map Prod.fst ++ [last.1]).head? ≠ some '-' ∧ ∀ s ∈ flags ++ [last], ShortFlag ds s
  | shortsValue flags last val =>
    (flags.map Prod.fst ++ [last.1]).head? ≠ some '-' ∧ (∀ s ∈ flags, ShortFlag ds s) ∧
      HasShort ds last.1 last.2 ∧ Takes ds last.2 val
  | dash => True
  | positional arg => arg.head? ≠ some '-'

/-- The options an item sets, in order. -/
def sets : Item → List (Arg × Option Arg)
  | flag name => [(name, none)]
  | assign name val | value name val => [(name, some val)]
  | shorts flags last => (flags ++ [last]).map fun s => (s.2, none)
  | shortsValue flags last val => (flags.map fun s => (s.2, none)) ++ [(last.2, some val)]
  | dash | positional _ => []

/-- The argument an item keeps. -/
def kept : Item → List Arg
  | positional arg => [arg]
  | _ => []

/-- An item takes one argument or two. -/
theorem render_cases (it : Item) :
    (∃ arg, it.render = [arg]) ∨ ∃ arg val, it.render = [arg, val] := by
  cases it with
  | value name val => exact .inr ⟨_, _, rfl⟩
  | shortsValue flags last val => exact .inr ⟨_, _, rfl⟩
  | flag name => exact .inl ⟨_, rfl⟩
  | assign name val => exact .inl ⟨_, rfl⟩
  | shorts flags last => exact .inl ⟨_, rfl⟩
  | dash => exact .inl ⟨_, rfl⟩
  | positional arg => exact .inl ⟨_, rfl⟩

end Item

namespace Parser

variable {p : Parser}

/-- Options are set one after another. -/
def assignAll (as : List (Arg × Option Arg)) (p : Parser) : Parser :=
  as.foldl (fun p a => p.assign a) p

@[simp] theorem decls_assignAll (as : List (Arg × Option Arg)) (p : Parser) :
    (p.assignAll as).decls = p.decls := by
  induction as generalizing p with
  | nil => rfl
  | cons a as ih => exact (ih _).trans (decls_assign a p)

@[simp] theorem errors_assignAll (as : List (Arg × Option Arg)) (p : Parser) :
    (p.assignAll as).errors = p.errors := by
  induction as generalizing p with
  | nil => rfl
  | cons a as ih => exact ih _

@[simp] theorem others_assignAll (as : List (Arg × Option Arg)) (p : Parser) :
    (p.assignAll as).others = p.others := by
  induction as generalizing p with
  | nil => rfl
  | cons a as ih => exact ih _

/-- What an item does. -/
def apply (it : Item) (p : Parser) : Parser :=
  { p.assignAll it.sets with others := p.others ++ it.kept }

@[simp] theorem decls_apply (it : Item) (p : Parser) : (p.apply it).decls = p.decls :=
  decls_assignAll it.sets p

@[simp] theorem errors_apply (it : Item) (p : Parser) : (p.apply it).errors = p.errors :=
  errors_assignAll it.sets p

/-- An item that keeps nothing. -/
theorem apply_of_kept {it : Item} (h : it.kept = []) (p : Parser) :
    p.apply it = p.assignAll it.sets := by
  rw [apply, h, List.append_nil, ← others_assignAll it.sets p]

/-! ## Short names -/

/-- The short names and their options, as they are looked up. -/
def Looks (lookup : List (Char × Arg)) (ds : List OptionDecl) : Prop :=
  ∀ c name, lookup.lookup c = some name ↔ HasShort ds c name

/-- An option without a long or without a short name is passed over. -/
theorem fillLookup_cons_of_silent {o : CmdOption} (h : o.name = [] ∨ o.shortName = none)
    (rest : List CmdOption) (acc : List (Char × Arg)) :
    fillLookup (o :: rest) acc = fillLookup rest acc ∧
      shortNames ((o :: rest).map CmdOption.toOptionDecl) =
        shortNames (rest.map CmdOption.toOptionDecl) ∧
      ∀ c name, HasShort ((o :: rest).map CmdOption.toOptionDecl) c name ↔
        HasShort (rest.map CmdOption.toOptionDecl) c name := by
  refine ⟨?_, ?_, fun c name => ?_⟩
  · rw [fillLookup]
    rcases h with hname | hshort
    · rw [if_pos hname]
    · rw [hshort, ite_self]
  · rcases h with hname | hshort
    · simp [shortNames, hname]
    · by_cases hname : o.name = []
      · simp [shortNames, hname]
      · simp [shortNames, hname, hshort]
  · simp only [HasShort, List.map_cons, List.exists_mem_cons_iff, or_iff_right_iff_imp]
    rintro ⟨rfl, hne, hsome⟩
    rcases h with hname | hshort
    · exact absurd hname hne
    · rw [hshort] at hsome
      cases hsome

/-- An option with both names adds its short name. -/
theorem hasShort_cons_of_both {o : CmdOption} {initial : Char} (hname : o.name ≠ [])
    (hinitial : o.shortName = some initial) (rest : List CmdOption) :
    shortNames ((o :: rest).map CmdOption.toOptionDecl) =
        initial :: shortNames (rest.map CmdOption.toOptionDecl) ∧
      ∀ c name, HasShort ((o :: rest).map CmdOption.toOptionDecl) c name ↔
        (c = initial ∧ o.name = name) ∨ HasShort (rest.map CmdOption.toOptionDecl) c name := by
  refine ⟨by simp [shortNames, hname, hinitial], fun c name => ?_⟩
  simp only [HasShort, List.map_cons, List.exists_mem_cons_iff, hinitial]
  refine or_congr_left ⟨?_, ?_⟩
  · intro h
    exact ⟨(Option.some.inj h.2.2).symm, h.1⟩
  · intro h
    exact ⟨h.2, h.2 ▸ hname, congrArg some h.1.symm⟩

/-- The lookup after a short name was added. -/
theorem lookup_cons_ite (initial : Char) (name : Arg) (lookup : List (Char × Arg)) (c : Char) :
    ((initial, name) :: lookup).lookup c =
      if c = initial then some name else lookup.lookup c := by
  by_cases hc : c = initial
  · rw [hc, List.lookup_cons_self, if_pos rfl]
  · rw [List.lookup_cons, beq_false_of_ne hc, if_neg hc]

theorem lookup_cons_of_new {lookup : List (Char × Arg)} {initial : Char}
    (hnew : lookup.lookup initial = none) (name : Arg) (c : Char) (name' : Arg) :
    ((initial, name) :: lookup).lookup c = some name' ↔
      (c = initial ∧ name = name') ∨ lookup.lookup c = some name' := by
  rw [lookup_cons_ite]
  by_cases hc : c = initial
  · simp [hc, hnew]
  · simp [hc]

theorem lookup_cons_eq_none_iff {lookup : List (Char × Arg)} {initial : Char} (name : Arg)
    (c : Char) : ((initial, name) :: lookup).lookup c = none ↔
      c ≠ initial ∧ lookup.lookup c = none := by
  rw [lookup_cons_ite]
  by_cases hc : c = initial
  · simp [hc]
  · simp [hc]

/-- The loop over the options finds the short names, unless one is there twice. -/
theorem fillLookup_spec (options : List CmdOption) (acc : List (Char × Arg)) :
    (∀ lookup, fillLookup options acc = .ok lookup →
      ((shortNames (options.map CmdOption.toOptionDecl)).Nodup ∧
        ∀ c ∈ shortNames (options.map CmdOption.toOptionDecl), acc.lookup c = none) ∧
      ∀ c name, lookup.lookup c = some name ↔ acc.lookup c = some name ∨
        HasShort (options.map CmdOption.toOptionDecl) c name) ∧
    ((shortNames (options.map CmdOption.toOptionDecl)).Nodup →
      (∀ c ∈ shortNames (options.map CmdOption.toOptionDecl), acc.lookup c = none) →
        ∃ lookup, fillLookup options acc = .ok lookup) := by
  induction options generalizing acc with
  | nil =>
    refine ⟨?_, fun _ _ => ⟨acc, rfl⟩⟩
    intro lookup h
    cases h
    simp [shortNames, HasShort]
  | cons o rest ih =>
    by_cases hsilent : o.name = [] ∨ o.shortName = none
    · obtain ⟨hfill, hshort, hhas⟩ := fillLookup_cons_of_silent hsilent rest acc
      simp only [hfill, hshort, hhas]
      exact ih acc
    · obtain ⟨hname, hsome⟩ := not_or.mp hsilent
      obtain ⟨initial, hinitial⟩ := Option.ne_none_iff_exists'.mp hsome
      obtain ⟨hshort, hhas⟩ := hasShort_cons_of_both hname hinitial rest
      simp only [fillLookup, if_neg hname, hinitial, hshort, hhas]
      obtain ⟨hsound, hcomplete⟩ := ih ((initial, o.name) :: acc)
      by_cases hacc : (acc.lookup initial).isSome
      · -- the short name is taken: the loop stops, and the names are not distinct
        rw [if_pos hacc]
        refine ⟨nofun, ?_⟩
        intro _ hnone
        rw [hnone initial List.mem_cons_self] at hacc
        cases hacc
      · rw [if_neg hacc]
        have hinit : acc.lookup initial = none := Option.not_isSome_iff_eq_none.mp hacc
        refine ⟨?_, ?_⟩
        · intro lookup h
          obtain ⟨⟨hnodup, hnone⟩, hlooks⟩ := hsound lookup h
          refine ⟨⟨List.nodup_cons.mpr ⟨fun hmem => ?_, hnodup⟩, ?_⟩, ?_⟩
          · exact ((lookup_cons_eq_none_iff o.name initial).mp (hnone initial hmem)).1 rfl
          · intro c hc
            rcases List.mem_cons.mp hc with rfl | hc
            · exact hinit
            · exact ((lookup_cons_eq_none_iff o.name c).mp (hnone c hc)).2
          · intro c name
            rw [hlooks, lookup_cons_of_new hinit]
            tauto
        · intro hnodup hnone
          obtain ⟨hnotMem, hnodup⟩ := List.nodup_cons.mp hnodup
          refine hcomplete hnodup fun c hc => (lookup_cons_eq_none_iff o.name c).mpr ⟨?_, ?_⟩
          · rintro rfl
            exact hnotMem hc
          · exact hnone c (List.mem_cons_of_mem _ hc)

/-- The lookup that was filled. -/
theorem looks_of_fillLookup {lookup : List (Char × Arg)}
    (h : fillLookup p.options [] = .ok lookup) : Unambiguous p.decls ∧ Looks lookup p.decls := by
  obtain ⟨⟨hnodup, -⟩, hlooks⟩ := (fillLookup_spec p.options []).1 lookup h
  refine ⟨hnodup, fun c name => (hlooks c name).trans ?_⟩
  simp only [List.lookup_nil, reduceCtorEq, false_or]
  rfl

theorem exists_fillLookup (h : Unambiguous p.decls) :
    ∃ lookup, fillLookup p.options [] = .ok lookup :=
  (fillLookup_spec p.options []).2 h fun _ _ => rfl

/-! ## What goes wrong stays wrong -/

/-- There are more errors, and the options are declared as before. -/
def Worse (p p' : Parser) : Prop := p'.decls = p.decls ∧ p.errors.length < p'.errors.length

theorem worse_error (e : String) : Worse p (p.error e) := by
  refine ⟨rfl, ?_⟩
  rw [error, List.length_append]
  exact Nat.lt_succ_self _

theorem Worse.trans {p' p'' : Parser} (h : Worse p p') (h' : Worse p' p'') : Worse p p'' :=
  ⟨h'.1.trans h.1, h.2.trans h'.2⟩

/-- Nothing that is found wrong is lost when options are set. -/
theorem Worse.of_errors_eq {p' p'' : Parser} (h : Worse p p') (hdecls : p''.decls = p'.decls)
    (herrors : p''.errors = p'.errors) : Worse p p'' :=
  ⟨hdecls.trans h.1, herrors ▸ h.2⟩

theorem Worse.of_eq_errors {p' p'' : Parser} (h : Worse p' p'') (hdecls : p'.decls = p.decls)
    (herrors : p'.errors = p.errors) : Worse p p'' :=
  ⟨h.1.trans hdecls, herrors ▸ h.2⟩

/-! ## One argument -/

section Arg

variable {lookup : List (Char × Arg)} {c : Char} {name arg : Arg} {next : Option Arg}

theorem setOption_cases (name : Arg) (p : Parser) :
    (IsFlag p.decls name ∧ p.setOption name = p.assign (name, none)) ∨
      Worse p (p.setOption name) := by
  by_cases h : IsFlag p.decls name
  · exact .inl ⟨h, setOption_of_isFlag h⟩
  · obtain ⟨e, he⟩ := setOption_of_not h
    exact .inr (he ▸ worse_error e)

theorem setOptionValue_cases (name val : Arg) (p : Parser) :
    (Takes p.decls name val ∧ p.setOptionValue name val = p.assign (name, some val)) ∨
      Worse p (p.setOptionValue name val) := by
  by_cases h : Takes p.decls name val
  · exact .inl ⟨h, setOptionValue_of_takes h⟩
  · obtain ⟨e, he⟩ := setOptionValue_of_not h
    exact .inr (he ▸ worse_error e)

theorem setShort_of_shortFlag (hl : Looks lookup p.decls) {s : Char × Arg}
    (h : Item.ShortFlag p.decls s) : p.setShort lookup s.1 = p.assign (s.2, none) := by
  obtain ⟨c, name⟩ := s
  obtain ⟨hshort, hflag⟩ := h
  have hne : name ≠ [] := by
    obtain ⟨-, -, -, hne, -⟩ := hshort
    exact hne
  rw [setShort, (hl c name).mpr hshort]
  obtain ⟨c', cs, rfl⟩ := List.exists_cons_of_ne_nil hne
  exact setOption_of_isFlag hflag

theorem setShort_cases (hl : Looks lookup p.decls) (c : Char) :
    (∃ name, Item.ShortFlag p.decls (c, name) ∧ p.setShort lookup c = p.assign (name, none)) ∨
      Worse p (p.setShort lookup c) := by
  rw [setShort]
  split
  · exact .inr (worse_error _)
  · exact .inr (worse_error _)
  next name hname hlookup =>
    rcases setOption_cases name p with ⟨hflag, heq⟩ | hworse
    · exact .inl ⟨name, ⟨(hl c name).mp hlookup, hflag⟩, heq⟩
    · exact .inr hworse

/-- A cluster of short names of options without a value. -/
theorem foldl_setShort (hl : Looks lookup p.decls) (flags : List (Char × Arg))
    (h : ∀ s ∈ flags, Item.ShortFlag p.decls s) :
    (flags.map Prod.fst).foldl (fun p c => p.setShort lookup c) p =
      p.assignAll (flags.map fun s => (s.2, none)) := by
  induction flags generalizing p with
  | nil => rfl
  | cons s flags ih =>
    obtain ⟨hs, hflags⟩ := List.forall_mem_cons.mp h
    rw [List.map_cons, List.foldl_cons, setShort_of_shortFlag hl hs]
    apply ih
    · rwa [decls_assign]
    · rwa [decls_assign]

/-- Any other cluster makes it worse. -/
theorem foldl_setShort_cases (hl : Looks lookup p.decls) (cs : List Char) :
    (∃ flags : List (Char × Arg), flags.map Prod.fst = cs ∧
      (∀ s ∈ flags, Item.ShortFlag p.decls s)) ∨
      Worse p (cs.foldl (fun p c => p.setShort lookup c) p) := by
  induction cs generalizing p with
  | nil => exact .inl ⟨[], rfl, List.forall_mem_nil _⟩
  | cons c cs ih =>
    rw [List.foldl_cons]
    rcases setShort_cases hl c with ⟨name, hflag, heq⟩ | hworse
    · -- the first name sets an option, and what follows is as before
      rw [heq]
      rcases ih (p := p.assign (name, none)) (by rwa [decls_assign]) with ⟨flags, rfl, hflags⟩ | hw
      · rw [decls_assign] at hflags
        exact .inl ⟨(c, name) :: flags, rfl, List.forall_mem_cons.mpr ⟨hflag, hflags⟩⟩
      · exact .inr (hw.of_eq_errors (decls_assign _ p) rfl)
    · -- the first name is an error, which stays
      right
      have hl' : Looks lookup (p.setShort lookup c).decls := hworse.1 ▸ hl
      rcases ih hl' with ⟨flags, rfl, hflags⟩ | hw
      · rw [foldl_setShort hl' flags hflags]
        exact hworse.of_errors_eq (decls_assignAll _ _) (errors_assignAll _ _)
      · exact hworse.trans hw

/-- The option with a name takes a value. -/
theorem value_isSome_of_takes {val : Arg} (h : Takes p.decls name val) :
    ∃ o, p.find name = some o ∧ o.value.isSome := by
  obtain ⟨d, hd, rfl, spec, hvalue, -⟩ := h
  obtain ⟨o, ho, rfl⟩ := List.mem_map.mp hd
  exact ⟨o, find_eq_some_iff.mpr ⟨ho, rfl⟩, hvalue ▸ rfl⟩

theorem value_eq_none_of_isFlag (h : IsFlag p.decls name) :
    ∃ o, p.find name = some o ∧ o.value = none := by
  obtain ⟨d, hd, rfl, hvalue⟩ := h
  obtain ⟨o, ho, rfl⟩ := List.mem_map.mp hd
  exact ⟨o, find_eq_some_iff.mpr ⟨ho, rfl⟩, hvalue⟩

theorem parseLast_of_isFlag (hl : Looks lookup p.decls) (hshort : HasShort p.decls c name)
    (hflag : IsFlag p.decls name) :
    p.parseLast lookup c next = (p.assign (name, none), false) := by
  have hne : name ≠ [] := by
    obtain ⟨-, -, -, hne, -⟩ := hshort
    exact hne
  obtain ⟨o, hfind, hvalue⟩ := value_eq_none_of_isFlag hflag
  rw [parseLast, (hl c name).mpr hshort]
  obtain ⟨c', cs, rfl⟩ := List.exists_cons_of_ne_nil hne
  cases next with
  | none => exact congrArg (·, false) (setOption_of_isFlag hflag)
  | some val =>
    simp only [hfind, Option.bind_some, hvalue]
    exact congrArg (·, false) (setOption_of_isFlag hflag)

theorem parseLast_of_takes {val : Arg} (hl : Looks lookup p.decls)
    (hshort : HasShort p.decls c name) (htakes : Takes p.decls name val) :
    p.parseLast lookup c (some val) = (p.assign (name, some val), true) := by
  have hne : name ≠ [] := by
    obtain ⟨-, -, -, hne, -⟩ := hshort
    exact hne
  obtain ⟨o, hfind, hvalue⟩ := value_isSome_of_takes htakes
  rw [parseLast, (hl c name).mpr hshort]
  obtain ⟨c', cs, rfl⟩ := List.exists_cons_of_ne_nil hne
  simp only [hfind, Option.bind_some, hvalue, if_true]
  exact congrArg (·, true) (setOptionValue_of_takes htakes)

/-- The last of a cluster is a short name of an option without a value or of one that reads the
next argument, or it makes it worse. -/
theorem parseLast_cases (hl : Looks lookup p.decls) (c : Char) (next : Option Arg) :
    (∃ name, Item.ShortFlag p.decls (c, name)) ∨
      (∃ name val, next = some val ∧ HasShort p.decls c name ∧ Takes p.decls name val) ∨
        Worse p (p.parseLast lookup c next).1 := by
  rw [parseLast]
  split
  · exact .inr (.inr (worse_error _))
  · exact .inr (.inr (worse_error _))
  next name hname hlookup =>
    have hshort := (hl c name).mp hlookup
    split
    · rcases setOption_cases name p with ⟨hflag, -⟩ | hworse
      · exact .inl ⟨name, hshort, hflag⟩
      · exact .inr (.inr hworse)
    next val =>
      split
      · rcases setOptionValue_cases name val p with ⟨htakes, -⟩ | hworse
        · exact .inr (.inl ⟨name, val, rfl, hshort, htakes⟩)
        · exact .inr (.inr hworse)
      · rcases setOption_cases name p with ⟨hflag, -⟩ | hworse
        · exact .inl ⟨name, hshort, hflag⟩
        · exact .inr (.inr hworse)

/-- A cluster is parsed but for its last name, and then the last. -/
theorem parseArg_cluster {cs : List Char} (hhead : (cs ++ [c]).head? ≠ some '-') :
    p.parseArg lookup ('-' :: (cs ++ [c])) next =
      (cs.foldl (fun p c => p.setShort lookup c) p).parseLast lookup c next := by
  obtain ⟨c', cs', hcs⟩ := List.exists_cons_of_ne_nil (List.concat_ne_nil c cs)
  have hc' : c' ≠ '-' := by
    rintro rfl
    exact hhead (hcs ▸ rfl)
  rw [show cs ++ [c] = c' :: cs' from hcs]
  rw [parseArg]
  · simp only [← hcs, List.dropLast_concat, List.getLast_append_singleton]
  · exact hc'

/-- An argument after two dashes, up to its first `=`. -/
theorem parseLong_eq {val : Arg} (hname : '=' ∉ name) :
    p.parseLong (name ++ '=' :: val) next = (p.setOptionValue name val, false) := by
  have hpos : ∀ x ∈ name, decide (x ≠ '=') = true := by
    intro x hx
    exact decide_eq_true fun h => hname (h ▸ hx)
  have hneg : decide ('=' ≠ '=') = false := decide_eq_false (not_not_intro rfl)
  rw [parseLong.eq_def, if_pos (List.mem_append_right _ List.mem_cons_self)]
  simp only [Cut.takeWhile_append_cons hpos hneg, Cut.dropWhile_append_cons hpos hneg,
    List.drop_succ_cons, List.drop_zero]

/-- An item is parsed where it is spelled in one argument. -/
theorem parseArg_render (hl : Looks lookup p.decls) {it : Item} (hfits : it.Fits p.decls)
    (hrender : it.render = [arg]) : p.parseArg lookup arg next = (p.apply it, false) := by
  cases it with
  | flag name =>
    obtain ⟨hname, hflag⟩ := hfits
    obtain ⟨o, hfind, hvalue⟩ := value_eq_none_of_isFlag hflag
    cases hrender
    rw [parseArg, parseLong.eq_def, if_neg hname, apply_of_kept rfl]
    simp only [hfind, hvalue]
    exact congrArg (·, false) (setOption_of_isFlag hflag)
  | assign name val =>
    obtain ⟨hname, htakes⟩ := hfits
    cases hrender
    rw [parseArg, parseLong_eq hname, setOptionValue_of_takes htakes, apply_of_kept rfl]
    rfl
  | value name val => cases hrender
  | shorts flags last =>
    obtain ⟨hhead, hflags⟩ := hfits
    obtain ⟨hflags, hlast⟩ := List.forall_mem_append.mp hflags
    cases hrender
    -- the names before the last one, and then the last one
    rw [parseArg_cluster hhead, foldl_setShort hl flags hflags]
    have hlast := hlast last List.mem_cons_self
    rw [parseLast_of_isFlag (by rwa [decls_assignAll]) (by rw [decls_assignAll]; exact hlast.1)
      (by rw [decls_assignAll]; exact hlast.2), apply_of_kept rfl]
    rw [assignAll, assignAll, Item.sets, List.map_append, List.foldl_append]
    rfl
  | shortsValue flags last val => cases hrender
  | dash =>
    cases hrender
    rw [apply_of_kept rfl]
    rfl
  | positional arg' =>
    cases hrender
    rw [parseArg]
    · rfl
    all_goals
      intros
      subst_vars
      exact hfits rfl

/-- An item is parsed where it is spelled in two. -/
theorem parseArg_render_two (hl : Looks lookup p.decls) {it : Item} (hfits : it.Fits p.decls)
    {val : Arg} (hrender : it.render = [arg, val]) :
    p.parseArg lookup arg (some val) = (p.apply it, true) := by
  cases it with
  | value name val' =>
    obtain ⟨hname, htakes⟩ := hfits
    obtain ⟨o, hfind, hvalue⟩ := value_isSome_of_takes htakes
    cases hrender
    rw [parseArg, parseLong.eq_def, if_neg hname, apply_of_kept rfl]
    simp only [hfind, hvalue, if_true]
    exact congrArg (·, true) (setOptionValue_of_takes htakes)
  | shortsValue flags last val' =>
    obtain ⟨hhead, hflags, hshort, htakes⟩ := hfits
    cases hrender
    rw [parseArg_cluster hhead, foldl_setShort hl flags hflags]
    rw [parseLast_of_takes (by rwa [decls_assignAll]) (by rwa [decls_assignAll])
      (by rwa [decls_assignAll]), apply_of_kept rfl]
    rw [assignAll, assignAll, Item.sets, List.foldl_append]
    rfl
  | flag name => cases hrender
  | assign name val => cases hrender
  | shorts flags last => cases hrender
  | dash => cases hrender
  | positional arg' => cases hrender

/-- An argument, perhaps with the next one, spells an item that fits, or it makes it worse. -/
theorem parseArg_cases (hl : Looks lookup p.decls) (arg : Arg) (next : Option Arg) :
    (∃ it : Item, it.Fits p.decls ∧
      (it.render = [arg] ∨ ∃ val, next = some val ∧ it.render = [arg, val])) ∨
      Worse p (p.parseArg lookup arg next).1 := by
  rw [parseArg.eq_def]
  split
  next name =>
    -- a long name
    rw [parseLong.eq_def]
    split
    next heq =>
      -- the name is what stands in front of the first `=`
      obtain hno | ⟨a, c, b, rfl, ha, hc⟩ := Cut.exists_separator (· = '=') name
      · exact absurd (hno _ heq) (by simp)
      obtain rfl : c = '=' := of_decide_eq_true hc
      have hname : '=' ∉ a := fun h => by simpa using ha _ h
      have hlong : p.parseLong (a ++ '=' :: b) next = (p.setOptionValue a b, false) :=
        parseLong_eq hname
      rw [parseLong.eq_def, if_pos heq] at hlong
      rw [(Prod.ext_iff.mp hlong).1]
      rcases setOptionValue_cases a b p with ⟨htakes, -⟩ | hworse
      · exact .inl ⟨.assign a b, ⟨hname, htakes⟩, .inl rfl⟩
      · exact .inr hworse
    next hname =>
      split
      · exact .inr (worse_error _)
      next o hfind =>
        split
        · split
          · exact .inr (worse_error _)
          next val =>
            rcases setOptionValue_cases name val p with ⟨htakes, -⟩ | hworse
            · exact .inl ⟨.value name val, ⟨hname, htakes⟩, .inr ⟨val, rfl, rfl⟩⟩
            · exact .inr hworse
        · rcases setOption_cases name p with ⟨hflag, -⟩ | hworse
          · exact .inl ⟨.flag name, ⟨hname, hflag⟩, .inl rfl⟩
          · exact .inr hworse
  · exact .inl ⟨.dash, trivial, .inl rfl⟩
  next c cs hc =>
    -- a cluster: its last name, and those before it
    have hne := List.cons_ne_nil c cs
    have hcs := List.dropLast_append_getLast hne
    have hhead : ((c :: cs).dropLast ++ [(c :: cs).getLast hne]).head? ≠ some '-' := by
      rw [hcs]
      rintro heq
      exact hc (Option.some.inj heq)
    rcases foldl_setShort_cases hl (c :: cs).dropLast with ⟨flags, hflags, hfits⟩ | hworse
    · have hfold := foldl_setShort hl flags hfits
      rw [hflags] at hfold
      rw [hfold]
      have hl' : Looks lookup (p.assignAll (flags.map fun s => (s.2, none))).decls := by
        rwa [decls_assignAll]
      rw [← hflags] at hcs hhead
      rcases parseLast_cases hl' ((c :: cs).getLast hne) next with
        ⟨name, hshort⟩ | ⟨name, val, rfl, hshort, htakes⟩ | hworse
      · rw [decls_assignAll] at hshort
        refine .inl ⟨.shorts flags ((c :: cs).getLast hne, name), ⟨hhead, ?_⟩, .inl ?_⟩
        · exact List.forall_mem_append.mpr ⟨hfits, List.forall_mem_singleton.mpr hshort⟩
        · rw [Item.render, hcs]
      · rw [decls_assignAll] at hshort htakes
        refine .inl ⟨.shortsValue flags ((c :: cs).getLast hne, name) val,
          ⟨hhead, hfits, hshort, htakes⟩, .inr ⟨val, rfl, ?_⟩⟩
        rw [Item.render, hcs]
      · exact .inr (hworse.of_eq_errors (decls_assignAll _ p) (errors_assignAll _ p))
    · -- an error among the names before the last one stays, whatever the last one does
      right
      have hl' : Looks lookup
          ((c :: cs).dropLast.foldl (fun p c => p.setShort lookup c) p).decls := hworse.1 ▸ hl
      rcases parseLast_cases hl' ((c :: cs).getLast hne) next with
        ⟨name, hshort, hflag⟩ | ⟨name, val, rfl, hshort, htakes⟩ | hworse'
      · rw [parseLast_of_isFlag hl' hshort hflag]
        exact hworse.of_errors_eq (decls_assign _ _) rfl
      · rw [parseLast_of_takes hl' hshort htakes]
        exact hworse.of_errors_eq (decls_assign _ _) rfl
      · exact hworse.trans hworse'
  next hno hdash hcluster =>
    -- nothing that begins with a dash is left
    refine .inl ⟨.positional arg, ?_, .inl rfl⟩
    intro hhead
    obtain ⟨cs, rfl⟩ := List.head?_eq_some_iff.mp hhead
    cases cs with
    | nil => exact hdash rfl
    | cons c cs => exact hcluster c cs rfl

end Arg

/-! ## All arguments -/

section Args

variable {lookup : List (Char × Arg)}

/-- Items one after another. -/
def applyAll (items : List Item) (p : Parser) : Parser := items.foldl (fun p it => p.apply it) p

@[simp] theorem decls_applyAll (items : List Item) (p : Parser) :
    (p.applyAll items).decls = p.decls := by
  induction items generalizing p with
  | nil => rfl
  | cons it items ih => exact (ih _).trans (decls_apply it p)

@[simp] theorem errors_applyAll (items : List Item) (p : Parser) :
    (p.applyAll items).errors = p.errors := by
  induction items generalizing p with
  | nil => rfl
  | cons it items ih => exact (ih _).trans (errors_apply it p)

theorem parseArgs_cons_false {arg : Arg} {rest : List Arg} {p' : Parser}
    (h : p.parseArg lookup arg rest.head? = (p', false)) :
    p.parseArgs lookup (arg :: rest) = p'.parseArgs lookup rest := by
  rw [parseArgs, h]

theorem parseArgs_cons_true {arg val : Arg} {rest : List Arg} {p' : Parser}
    (h : p.parseArg lookup arg (some val) = (p', true)) :
    p.parseArgs lookup (arg :: val :: rest) = p'.parseArgs lookup rest := by
  rw [parseArgs, List.head?_cons, h]

/-- Items that fit are parsed as they are spelled. -/
theorem parseArgs_render (items : List Item) (hl : Looks lookup p.decls)
    (h : ∀ it ∈ items, it.Fits p.decls) :
    p.parseArgs lookup (items.flatMap Item.render) = p.applyAll items := by
  induction items generalizing p with
  | nil => rfl
  | cons it items ih =>
    obtain ⟨hfits, hitems⟩ := List.forall_mem_cons.mp h
    have hrest := ih (p := p.apply it) (by rwa [decls_apply]) (by rwa [decls_apply])
    rw [List.flatMap_cons]
    rcases it.render_cases with ⟨arg, hrender⟩ | ⟨arg, val, hrender⟩
    · rw [hrender, List.singleton_append, parseArgs_cons_false (parseArg_render hl hfits hrender)]
      exact hrest
    · rw [hrender, List.cons_append, List.singleton_append,
        parseArgs_cons_true (parseArg_render_two hl hfits hrender)]
      exact hrest

/-- Any arguments spell items that fit, or make it worse. -/
theorem parseArgs_sound (args : List Arg) (hl : Looks lookup p.decls) :
    (∃ items : List Item, args = items.flatMap Item.render ∧ ∀ it ∈ items, it.Fits p.decls) ∨
      Worse p (p.parseArgs lookup args) := by
  induction hlen : args.length using Nat.strong_induction_on generalizing args p with
  | _ n ih =>
  subst hlen
  cases args with
  | nil => exact .inl ⟨[], rfl, List.forall_mem_nil _⟩
  | cons arg rest =>
    -- an item, and those that the rest spells
    have hitem : ∀ (it : Item) (rest' : List Arg), it.Fits p.decls →
        rest'.length < (arg :: rest).length → arg :: rest = it.render ++ rest' →
        p.parseArgs lookup (arg :: rest) = (p.apply it).parseArgs lookup rest' →
        (∃ items : List Item, arg :: rest = items.flatMap Item.render ∧
          ∀ it ∈ items, it.Fits p.decls) ∨ Worse p (p.parseArgs lookup (arg :: rest)) := by
      intro it rest' hfits hlt hrender hparse
      rcases ih rest'.length hlt (p := p.apply it) rest' (by rwa [decls_apply]) rfl
        with ⟨items, rfl, hitems⟩ | hworse
      · rw [decls_apply] at hitems
        refine .inl ⟨it :: items, ?_, List.forall_mem_cons.mpr ⟨hfits, hitems⟩⟩
        rw [hrender, List.flatMap_cons]
      · rw [hparse]
        exact .inr (hworse.of_eq_errors (decls_apply it p) (errors_apply it p))
    rcases parseArg_cases hl arg rest.head? with ⟨it, hfits, hrender⟩ | hworse
    · rcases hrender with hrender | ⟨val, hval, hrender⟩
      · exact hitem it rest hfits (Nat.lt_succ_self _) (by rw [hrender]; rfl)
          (parseArgs_cons_false (parseArg_render hl hfits hrender))
      · obtain ⟨rest, rfl⟩ := List.head?_eq_some_iff.mp hval
        exact hitem it rest hfits (by simp only [List.length_cons]; omega) (by rw [hrender]; rfl)
          (parseArgs_cons_true (parseArg_render_two hl hfits hrender))
    · -- what follows does not mend it
      right
      have hrest : ∀ rest' : List Arg, rest'.length < (arg :: rest).length →
          Worse p ((p.parseArg lookup arg rest.head?).1.parseArgs lookup rest') := by
        intro rest' hlt
        have hl' : Looks lookup (p.parseArg lookup arg rest.head?).1.decls := hworse.1 ▸ hl
        rcases ih rest'.length hlt rest' hl' rfl with ⟨items, rfl, hitems⟩ | hworse'
        · rw [parseArgs_render items hl' hitems]
          exact hworse.of_errors_eq (decls_applyAll _ _) (errors_applyAll _ _)
        · exact hworse.trans hworse'
      rw [parseArgs]
      split
      next p' heq =>
        have hp' := hrest rest (Nat.lt_succ_self _)
        rwa [heq] at hp'
      next p' heq =>
        split
        · rwa [heq] at hworse
        next val rest =>
          have hp' := hrest rest (by simp only [List.length_cons]; omega)
          rwa [heq] at hp'

end Args

/-! ## The needed options -/

/-- What is not valid is an error. -/
theorem checkNeeded_eq (p : Parser) : p.checkNeeded =
    { p with errors := p.errors ++ (p.options.filter fun o => !o.valid).map fun o =>
        "need option: --" ++ String.ofList o.name } := by
  have hfold : ∀ (options : List CmdOption) (p : Parser),
      options.foldl (fun p o =>
        if o.valid then p else p.error ("need option: --" ++ String.ofList o.name)) p =
      { p with errors := p.errors ++ (options.filter fun o => !o.valid).map fun o =>
          "need option: --" ++ String.ofList o.name } := by
    intro options
    induction options with
    | nil =>
      intro p
      simp
    | cons o options ih =>
      intro p
      rw [List.foldl_cons, ih]
      cases hvalid : o.valid with
      | true => simp [hvalid]
      | false => simp [hvalid, error]
  exact hfold p.options p

theorem checkNeeded_of_valid (h : ∀ o ∈ p.options, o.valid = true) : p.checkNeeded = p := by
  have hfilter : (p.options.filter fun o => !o.valid) = [] := by
    apply List.filter_eq_nil_iff.mpr
    intro o ho
    rw [h o ho]
    exact Bool.false_ne_true
  rw [checkNeeded_eq, hfilter, List.map_nil, List.append_nil]

theorem errors_checkNeeded_eq_nil_iff :
    p.checkNeeded.errors = [] ↔ p.errors = [] ∧ ∀ o ∈ p.options, o.valid = true := by
  rw [checkNeeded_eq]
  simp only [List.append_eq_nil_iff, List.map_eq_nil_iff, List.filter_eq_nil_iff,
    Bool.not_eq_true, Bool.not_eq_false']

/-! ## What becomes of an option -/

end Parser

namespace CmdOption

/-- The option must have been set. -/
def Needed (o : CmdOption) : Prop := ∃ spec, o.value = some spec ∧ spec.need = true

theorem valid_iff {o : CmdOption} : o.valid = true ↔ (o.Needed → o.has = true) := by
  rw [valid, Needed]
  cases o.value with
  | none => simp
  | some spec => cases hneed : spec.need <;> simp [hneed]

/-- The option after some options are set. -/
def assignAll (as : List (Arg × Option Arg)) (o : CmdOption) : CmdOption :=
  as.foldl (fun o a => o.assign a) o

@[simp] theorem toOptionDecl_assignAll (as : List (Arg × Option Arg)) (o : CmdOption) :
    (o.assignAll as).toOptionDecl = o.toOptionDecl := by
  induction as generalizing o with
  | nil => rfl
  | cons a as ih => exact (ih _).trans (toOptionDecl_assign a o)

/-- An option has been set, if it was before or is set under its name. -/
theorem has_assignAll (as : List (Arg × Option Arg)) (o : CmdOption) :
    (o.assignAll as).has = true ↔ o.has = true ∨ o.name ∈ as.map Prod.fst := by
  induction as generalizing o with
  | nil => simp [assignAll]
  | cons a as ih =>
    have hname : (o.assign a).name = o.name := by rw [toOptionDecl_assign]
    have hstep : (o.assign a).has = true ↔ o.has = true ∨ o.name = a.1 := by
      rw [assign]
      split
      next h => simp [h]
      next h => simp [h]
    rw [show o.assignAll (a :: as) = (o.assign a).assignAll as from rfl, ih, hname, hstep,
      List.map_cons, List.mem_cons, or_assoc]

/-- The text of an option is the last one that was given under its name. -/
theorem actual_assignAll (as : List (Arg × Option Arg)) (o : CmdOption) :
    (o.assignAll as).actual =
      (((as.filter fun a => a.1 = o.name).filterMap Prod.snd).getLast?).or o.actual := by
  induction as generalizing o with
  | nil => rfl
  | cons a as ih =>
    have hname : (o.assign a).name = o.name := by rw [toOptionDecl_assign]
    rw [show o.assignAll (a :: as) = (o.assign a).assignAll as from rfl, ih, hname, assign]
    by_cases h : o.name = a.1
    · rw [if_pos h, List.filter_cons_of_pos (by simp [h])]
      cases htext : a.2 with
      | none => rw [List.filterMap_cons_none htext, Option.none_or]
      | some text =>
        rw [List.filterMap_cons_some htext, List.getLast?_cons, Option.some_or]
        cases ((as.filter fun a => a.1 = o.name).filterMap Prod.snd).getLast? <;> rfl
    · rw [if_neg h, List.filter_cons_of_neg (by simp [Ne.symm h])]

end CmdOption

namespace Parser

variable {p : Parser}

theorem options_assignAll (as : List (Arg × Option Arg)) (p : Parser) :
    (p.assignAll as).options = p.options.map (CmdOption.assignAll as) := by
  induction as generalizing p with
  | nil => exact (List.map_id _).symm
  | cons a as ih =>
    refine (ih (p.assign a)).trans ?_
    rw [assign, mapOptions, List.map_map]
    rfl

theorem options_applyAll (items : List Item) (p : Parser) :
    (p.applyAll items).options =
      p.options.map (CmdOption.assignAll (items.flatMap Item.sets)) := by
  induction items generalizing p with
  | nil => exact (List.map_id _).symm
  | cons it items ih =>
    refine (ih (p.apply it)).trans ?_
    rw [apply, options_assignAll, List.map_map, List.flatMap_cons]
    refine List.map_congr_left fun o _ => ?_
    exact (List.foldl_append ..).symm

theorem progName_assignAll (as : List (Arg × Option Arg)) (p : Parser) :
    (p.assignAll as).progName = p.progName := by
  induction as generalizing p with
  | nil => rfl
  | cons a as ih => exact ih _

theorem progName_applyAll (items : List Item) (p : Parser) :
    (p.applyAll items).progName = p.progName := by
  induction items generalizing p with
  | nil => rfl
  | cons it items ih => exact (ih _).trans (progName_assignAll it.sets p)

theorem others_applyAll (items : List Item) (p : Parser) :
    (p.applyAll items).others = p.others ++ items.flatMap Item.kept := by
  induction items generalizing p with
  | nil => exact (List.append_nil _).symm
  | cons it items ih =>
    refine (ih (p.apply it)).trans ?_
    rw [apply, List.flatMap_cons, List.append_assoc]

/-! ## What is accepted -/

/-- The parser after the name of the program and some items. -/
def result (prog : Arg) (items : List Item) (p : Parser) : Parser :=
  { p.mapOptions (CmdOption.assignAll (items.flatMap Item.sets)) fun o => by
      rw [CmdOption.toOptionDecl_assignAll] with
    progName := if p.progName = [] then prog else p.progName
    others := items.flatMap Item.kept
    errors := [] }

/-- Every needed option has been set before, or by one of the items. -/
def NeedsMet (items : List Item) (p : Parser) : Prop :=
  ∀ o ∈ p.options, o.Needed → o.has = true ∨ ∃ it ∈ items, o.name ∈ it.sets.map Prod.fst

/-- The parser that the loop over the arguments starts with. -/
def started (prog : Arg) (p : Parser) : Parser :=
  { p with errors := [], others := [], progName := if p.progName = [] then prog else p.progName }

theorem applyAll_started (prog : Arg) (items : List Item) (p : Parser) :
    (p.started prog).applyAll items = p.result prog items := by
  ext1
  · exact options_applyAll items (p.started prog)
  · exact progName_applyAll items (p.started prog)
  · exact others_applyAll items (p.started prog)
  · exact errors_applyAll items (p.started prog)

theorem valid_result_iff (prog : Arg) {items : List Item} :
    (∀ o ∈ (p.result prog items).options, o.valid = true) ↔ p.NeedsMet items := by
  have hvalid : ∀ o : CmdOption, (o.assignAll (items.flatMap Item.sets)).valid = true ↔
      (o.Needed → o.has = true ∨ ∃ it ∈ items, o.name ∈ it.sets.map Prod.fst) := by
    intro o
    have hneeded : (o.assignAll (items.flatMap Item.sets)).Needed ↔ o.Needed := by
      rw [CmdOption.Needed, CmdOption.toOptionDecl_assignAll, CmdOption.Needed]
    rw [CmdOption.valid_iff, hneeded, CmdOption.has_assignAll, List.map_flatMap, List.mem_flatMap]
  exact List.forall_mem_map.trans (forall₂_congr fun o _ => hvalid o)

theorem parse_cons (prog : Arg) (args : List Arg) (p : Parser) : p.parse (prog :: args) =
    match fillLookup p.options [] with
    | .error initial => (false,
        (p.started prog).error ("short option '" ++ String.ofList [initial] ++ "' is ambiguous"))
    | .ok lookup =>
      let p := ((p.started prog).parseArgs lookup args).checkNeeded
      (p.errors.isEmpty, p) := by
  have hstarted : (if p.progName = [] then { { p with errors := [], others := [] } with
      progName := prog } else { p with errors := [], others := [] }) = p.started prog := by
    rw [started]
    split <;> rfl
  rw [parse]
  simp only [hstarted]
  rfl

/-- Items that fit are applied, and then the needed options are looked at. -/
theorem parse_render {prog : Arg} {items : List Item} (hunambiguous : Unambiguous p.decls)
    (hitems : ∀ it ∈ items, it.Fits p.decls) : p.parse (prog :: items.flatMap Item.render) =
      ((p.result prog items).checkNeeded.errors.isEmpty, (p.result prog items).checkNeeded) := by
  obtain ⟨lookup, hfill⟩ := exists_fillLookup hunambiguous
  obtain ⟨-, hl⟩ := looks_of_fillLookup hfill
  have hparse := (parseArgs_render (p := p.started prog) items hl hitems).trans
    (applyAll_started prog items p)
  rw [parse_cons]
  simp only [hfill, hparse]

/-- What is accepted, and what becomes of it. -/
theorem parse_accepts_iff {argv : List Arg} {p' : Parser} : p.parse argv = (true, p') ↔
    Unambiguous p.decls ∧ ∃ prog items, argv = prog :: items.flatMap Item.render ∧
      (∀ it ∈ items, it.Fits p.decls) ∧ p.NeedsMet items ∧ p' = p.result prog items := by
  cases argv with
  | nil => simp [parse]
  | cons prog args =>
    rw [parse_cons]
    constructor
    · intro h
      cases hfill : fillLookup p.options [] with
      | error initial =>
        rw [hfill] at h
        cases h
      | ok lookup =>
        rw [hfill] at h
        obtain ⟨hok, rfl⟩ := Prod.mk.inj h
        obtain ⟨hunambiguous, hl⟩ := looks_of_fillLookup hfill
        obtain ⟨herrors, hvalid⟩ :=
          errors_checkNeeded_eq_nil_iff.mp (List.isEmpty_iff.mp hok)
        -- without an error the arguments spelled items, and all options are valid
        rcases parseArgs_sound (p := p.started prog) args hl with ⟨items, rfl, hitems⟩ | hworse
        · have hparse := (parseArgs_render (p := p.started prog) items hl hitems).trans
            (applyAll_started prog items p)
          rw [hparse] at hvalid ⊢
          exact ⟨hunambiguous, prog, items, rfl, hitems, (valid_result_iff prog).mp hvalid,
            checkNeeded_of_valid hvalid⟩
        · have hlt := hworse.2
          rw [herrors] at hlt
          cases hlt
    · rintro ⟨hunambiguous, prog', items, heq, hitems, hneeds, rfl⟩
      obtain ⟨rfl, rfl⟩ := List.cons.inj heq
      have hneeded := checkNeeded_of_valid ((valid_result_iff prog).mpr hneeds)
      rw [← parse_cons, parse_render hunambiguous hitems, hneeded]
      rfl

end Parser

end Cmdline

end SampleTools
