import Mathlib.Data.List.Nodup
import Mathlib.Data.List.Basic
import Mathlib.Tactic.Common

/-!
# The command line parser

Options are declared with a long name and perhaps a short one; an option takes a value or does
not, and one that does may be needed. An argument that begins with two dashes names an option,
with its value behind `=` or in the next argument; one that begins with a single dash is a
cluster of short names, the last of which may take its value from the next argument; every other
argument is kept. Errors are collected, and parsing goes on.

Reading a value is told by the text it is read from: the reader of an option accepts a text or
throws.

## Main definitions

* `CmdOption`, `Parser`: an option, and the parser
* `Parser.parse`: `parse(argc, argv)`
* `Parser.parseLine`: `parse(arg)`, on one text with quotes
* `Parser.parseCheck`: `parse_check`, and what the program does

## Main results

* `Parser.find_eq_some_iff`: the option that is found under a name
* `Parser.setOption_of_isFlag`, `Parser.setOptionValue_of_takes`: what sets an option
-/

namespace SampleTools

namespace Cmdline

/-- A C string. -/
abbrev Arg := List Char

/-- What an option with a value has: whether it is needed, and the texts its reader accepts. -/
structure ValueSpec where
  need : Bool
  reads : Arg → Bool

/-- What is declared of an option; `value` is `none` for `option_without_value`. -/
structure OptionDecl where
  name : Arg
  shortName : Option Char
  value : Option ValueSpec

/-- An option; `actual` is the text that was read, `none` for the default. -/
structure CmdOption extends OptionDecl where
  has : Bool := false
  actual : Option Arg := none

namespace CmdOption

/-- `set()`. -/
def set (o : CmdOption) : Option CmdOption :=
  match o.value with
  | none => some { o with has := true }
  | some _ => none

/-- `set(value)`. -/
def setValue (text : Arg) (o : CmdOption) : Option CmdOption :=
  match o.value with
  | none => none
  | some spec => if spec.reads text then some { o with has := true, actual := some text } else none

/-- The option is set, if it has the name, with a text or without. -/
def assign (a : Arg × Option Arg) (o : CmdOption) : CmdOption :=
  if o.name = a.1 then { o with has := true, actual := a.2.or o.actual } else o

@[simp] theorem toOptionDecl_assign (a : Arg × Option Arg) (o : CmdOption) :
    (o.assign a).toOptionDecl = o.toOptionDecl := by
  rw [assign]
  split <;> rfl

/-- `valid`. -/
def valid (o : CmdOption) : Bool :=
  match o.value with
  | none => true
  | some spec => !(spec.need && !o.has)

end CmdOption

/-- `parser`; no two options have one name, and they are in the order of their names. -/
@[ext]
structure Parser where
  options : List CmdOption := []
  nodup : (options.map fun o => o.name).Nodup := by exact List.nodup_nil
  progName : Arg := []
  others : List Arg := []
  errors : List String := []

namespace Parser

/-- `options.find`. -/
def find (name : Arg) (p : Parser) : Option CmdOption := p.options.find? fun o => o.name = name

/-- `errors.push_back`. -/
def error (e : String) (p : Parser) : Parser := { p with errors := p.errors ++ [e] }

/-- Options change, but not their names. -/
def mapOptions (f : CmdOption → CmdOption) (hf : ∀ o, (f o).name = o.name) (p : Parser) :
    Parser :=
  { p with
    options := p.options.map f
    nodup := by
      rw [List.map_map, show (fun o => o.name) ∘ f = fun o => o.name from funext hf]
      exact p.nodup }

/-- An option in the place of the one that has its name. -/
def put (o : CmdOption) (p : Parser) : Parser :=
  p.mapOptions (fun o' => if o'.name = o.name then o else o') fun o' => by
    split
    next h => exact h.symm
    · rfl

/-- `set_option(name)`. -/
def setOption (name : Arg) (p : Parser) : Parser :=
  match p.find name with
  | none => p.error ("undefined option: --" ++ String.ofList name)
  | some o =>
    match o.set with
    | some o => p.put o
    | none => p.error ("option needs value: --" ++ String.ofList name)

/-- `set_option(name, value)`. -/
def setOptionValue (name value : Arg) (p : Parser) : Parser :=
  match p.find name with
  | none => p.error ("undefined option: --" ++ String.ofList name)
  | some o =>
    match o.setValue value with
    | some o => p.put o
    | none =>
      p.error ("option value is invalid: --" ++ String.ofList name ++ "=" ++ String.ofList value)

/-- The loop that fills `lookup`: the short names with their options, or a short name that is
ambiguous. -/
def fillLookup : List CmdOption → List (Char × Arg) → Except Char (List (Char × Arg))
  | [], lookup => .ok lookup
  | o :: rest, lookup =>
    -- an option without a long name is passed over
    if o.name = [] then fillLookup rest lookup
    else
      match o.shortName with
      | none => fillLookup rest lookup
      | some initial =>
        if (lookup.lookup initial).isSome then .error initial
        else fillLookup rest ((initial, o.name) :: lookup)

/-- A short name that is not the last of its cluster. -/
def setShort (lookup : List (Char × Arg)) (c : Char) (p : Parser) : Parser :=
  match lookup.lookup c with
  | none => p.error ("undefined short option: -" ++ String.ofList [c])
  | some [] => p.error ("ambiguous short option: -" ++ String.ofList [c])
  | some name => p.setOption name

/-- An argument that begins with two dashes, without them; and whether the next one is used. -/
def parseLong (arg : Arg) (next : Option Arg) (p : Parser) : Parser × Bool :=
  if '=' ∈ arg then
    -- the value is all that stands behind the first `=`
    let name := arg.takeWhile (· ≠ '=')
    let val := (arg.dropWhile (· ≠ '=')).drop 1
    (p.setOptionValue name val, false)
  else
    match p.find arg with
    | none => (p.error ("undefined option: --" ++ String.ofList arg), false)
    | some o =>
      if o.value.isSome then
        -- whatever the next argument is, it is the value
        match next with
        | none => (p.error ("option needs value: --" ++ String.ofList arg), false)
        | some val => (p.setOptionValue arg val, true)
      else (p.setOption arg, false)

/-- The last short name of a cluster; and whether the next argument is used. -/
def parseLast (lookup : List (Char × Arg)) (last : Char) (next : Option Arg) (p : Parser) :
    Parser × Bool :=
  match lookup.lookup last with
  | none => (p.error ("undefined short option: -" ++ String.ofList [last]), false)
  | some [] => (p.error ("ambiguous short option: -" ++ String.ofList [last]), false)
  | some name =>
    match next with
    -- an option that takes a value has none here, and cannot be set
    | none => (p.setOption name, false)
    | some val =>
      if ((p.find name).bind fun o => o.value).isSome then (p.setOptionValue name val, true)
      else (p.setOption name, false)

/-- The body of the loop over the arguments; and whether the next argument is used. -/
def parseArg (lookup : List (Char × Arg)) (arg : Arg) (next : Option Arg) (p : Parser) :
    Parser × Bool :=
  match arg with
  | '-' :: '-' :: name => p.parseLong name next
  -- a single dash is passed over
  | ['-'] => (p, false)
  | '-' :: c :: cs =>
    let p := ((c :: cs).dropLast).foldl (fun p c => p.setShort lookup c) p
    p.parseLast lookup ((c :: cs).getLast (List.cons_ne_nil c cs)) next
  | _ => ({ p with others := p.others ++ [arg] }, false)

/-- The loop over the arguments. -/
def parseArgs (lookup : List (Char × Arg)) : List Arg → Parser → Parser
  | [], p => p
  | arg :: rest, p =>
    match p.parseArg lookup arg rest.head? with
    | (p, false) => parseArgs lookup rest p
    | (p, true) =>
      match rest with
      | [] => p
      | _ :: rest => parseArgs lookup rest p

/-- The loop over the options after the arguments. -/
def checkNeeded (p : Parser) : Parser :=
  p.options.foldl (fun p o =>
    if o.valid then p else p.error ("need option: --" ++ String.ofList o.name)) p

/-- `parse(argc, argv)`. -/
def parse (argv : List Arg) (p : Parser) : Bool × Parser :=
  let p := { p with errors := [], others := [] }
  match argv with
  | [] => (false, p.error "argument number must be longer than 0")
  | arg :: args =>
    -- a name that the program has been given stays
    let p := if p.progName = [] then { p with progName := arg } else p
    match fillLookup p.options [] with
    | .error initial =>
      (false, p.error ("short option '" ++ String.ofList [initial] ++ "' is ambiguous"))
    | .ok lookup =>
      let p := (parseArgs lookup args p).checkNeeded
      (p.errors.isEmpty, p)

/-! ## One text -/

/-- The loop of `parse(arg)`; inside of quotes a space parts nothing. -/
def splitLine : List Char → Arg → Bool → List Arg → Except String (List Arg)
  | [], buf, inQuote, args =>
    if inQuote then .error "quote is not closed"
    else if buf ≠ [] then .ok (args ++ [buf])
    else .ok args
  | '"' :: cs, buf, inQuote, args => splitLine cs buf (!inQuote) args
  -- of several spaces each ends an argument, which may be empty
  | ' ' :: cs, buf, false, args => splitLine cs [] false (args ++ [buf])
  | ['\\'], _, _, _ => .error "unexpected occurrence of '\\' at end of string"
  | '\\' :: c :: cs, buf, inQuote, args => splitLine cs (buf ++ [c]) inQuote args
  | c :: cs, buf, inQuote, args => splitLine cs (buf ++ [c]) inQuote args

/-- `parse(arg)`; the arguments are passed on as C strings. -/
def parseLine (line : List Char) (p : Parser) : Bool × Parser :=
  match splitLine line [] false [] with
  | .error e => (false, p.error e)
  | .ok args => p.parse (args.map fun arg => arg.takeWhile (· ≠ Char.ofNat 0))

/-! ## Checking -/

/-- An option joins the others, in the order of the names. -/
def insertOption (o : CmdOption) : List CmdOption → List CmdOption
  | [] => [o]
  | o' :: rest => if o.name < o'.name then o :: o' :: rest else o' :: insertOption o rest

theorem insertOption_perm (o : CmdOption) (options : List CmdOption) :
    (insertOption o options).Perm (o :: options) := by
  induction options with
  | nil => exact .refl _
  | cons o' rest ih =>
    rw [insertOption]
    split
    · exact .refl _
    · exact (ih.cons o').trans (.swap _ _ _)

/-- `add`; a name that is there throws. -/
def add (o : CmdOption) (p : Parser) : Option Parser :=
  if h : o.name ∈ (p.options.map fun o => o.name) then none
  else some { p with
    options := insertOption o p.options
    nodup := by
      rw [((insertOption_perm o p.options).map _).nodup_iff, List.map_cons, List.nodup_cons]
      exact ⟨h, p.nodup⟩ }

/-- The option `parse_check` adds. -/
def helpOption : CmdOption where
  name := "help".toList
  shortName := some '?'
  value := none

/-- What the program does after `check`. -/
inductive Checked
  | goesOn (p : Parser)
  | exits (code : ℕ)

/-- `exist`, for an option that is there. -/
def exist (name : Arg) (p : Parser) : Bool := (p.find name).any CmdOption.has

/-- `check`. -/
def check (argc : ℕ) (ok : Bool) (p : Parser) : Checked :=
  if argc = 1 ∧ ¬ ok ∨ p.exist helpOption.name then .exits 0
  else if ¬ ok then .exits 1
  else .goesOn p

/-- `parse_check(argc, argv)`. -/
def parseCheck (argv : List Arg) (p : Parser) : Checked :=
  let p := (p.add helpOption).getD p
  let (ok, p) := p.parse argv
  p.check argv.length ok

/-! ## The options under their names -/

variable {p : Parser} {name val : Arg} {o : CmdOption}

theorem find_eq_some_iff : p.find name = some o ↔ o ∈ p.options ∧ o.name = name := by
  constructor
  · intro h
    exact ⟨List.mem_of_find?_eq_some h, of_decide_eq_true (List.find?_some h :)⟩
  · rintro ⟨ho, rfl⟩
    rw [find]
    -- what is found has the name, and no other option has it
    cases hfind : p.options.find? fun o' => o'.name = o.name with
    | none => exact absurd (decide_eq_true rfl) (List.find?_eq_none.mp hfind o ho)
    | some o' =>
      have hname : o'.name = o.name := of_decide_eq_true (List.find?_some hfind :)
      rw [List.inj_on_of_nodup_map p.nodup (List.mem_of_find?_eq_some hfind) ho hname]

theorem mapOptions_congr {f g : CmdOption → CmdOption} {hf : ∀ o, (f o).name = o.name}
    {hg : ∀ o, (g o).name = o.name} (h : ∀ o ∈ p.options, f o = g o) :
    p.mapOptions f hf = p.mapOptions g hg := by
  simp only [mapOptions, List.map_congr_left h]

/-- An option is set, with a text or without. -/
def assign (a : Arg × Option Arg) (p : Parser) : Parser :=
  p.mapOptions (CmdOption.assign a) fun o => by rw [CmdOption.toOptionDecl_assign]

/-- The declarations. -/
def decls (p : Parser) : List OptionDecl := p.options.map CmdOption.toOptionDecl

@[simp] theorem decls_assign (a : Arg × Option Arg) (p : Parser) :
    (p.assign a).decls = p.decls := by
  simp only [decls, assign, mapOptions, List.map_map]
  exact List.map_congr_left fun o _ => o.toOptionDecl_assign a

@[simp] theorem errors_assign (a : Arg × Option Arg) (p : Parser) :
    (p.assign a).errors = p.errors := rfl

@[simp] theorem decls_error (e : String) (p : Parser) : (p.error e).decls = p.decls := rfl

end Parser

/-- An option with the name takes no value. -/
def IsFlag (ds : List OptionDecl) (name : Arg) : Prop := ∃ d ∈ ds, d.name = name ∧ d.value = none

/-- An option with the name reads the text. -/
def Takes (ds : List OptionDecl) (name val : Arg) : Prop :=
  ∃ d ∈ ds, d.name = name ∧ ∃ spec, d.value = some spec ∧ spec.reads val = true

namespace Parser

variable {p : Parser} {name val : Arg}

/-- What setting an option without a value does. -/
theorem setOption_of_isFlag (h : IsFlag p.decls name) :
    p.setOption name = p.assign (name, none) := by
  obtain ⟨d, hd, rfl, hvalue⟩ := h
  obtain ⟨o, ho, rfl⟩ := List.mem_map.mp hd
  have hset : o.set = some { o with has := true } := by rw [CmdOption.set, hvalue]
  rw [setOption, find_eq_some_iff.mpr ⟨ho, rfl⟩]
  simp only [hset]
  refine mapOptions_congr fun o' ho' => ?_
  by_cases hname : o'.name = o.name
  · rw [List.inj_on_of_nodup_map p.nodup ho' ho hname, if_pos rfl, CmdOption.assign, if_pos rfl]
    rfl
  · rw [if_neg hname, CmdOption.assign, if_neg hname]

/-- What setting an option to a value does. -/
theorem setOptionValue_of_takes (h : Takes p.decls name val) :
    p.setOptionValue name val = p.assign (name, some val) := by
  obtain ⟨d, hd, rfl, spec, hvalue, hreads⟩ := h
  obtain ⟨o, ho, rfl⟩ := List.mem_map.mp hd
  have hset : o.setValue val = some { o with has := true, actual := some val } := by
    rw [CmdOption.setValue, hvalue]
    exact if_pos hreads
  rw [setOptionValue, find_eq_some_iff.mpr ⟨ho, rfl⟩]
  simp only [hset]
  refine mapOptions_congr fun o' ho' => ?_
  by_cases hname : o'.name = o.name
  · rw [List.inj_on_of_nodup_map p.nodup ho' ho hname, if_pos rfl, CmdOption.assign, if_pos rfl]
    rfl
  · rw [if_neg hname, CmdOption.assign, if_neg hname]

/-- Anything else is an error. -/
theorem setOption_of_not (h : ¬ IsFlag p.decls name) : ∃ e, p.setOption name = p.error e := by
  rw [setOption]
  cases hfind : p.find name with
  | none => exact ⟨_, rfl⟩
  | some o =>
    obtain ⟨ho, hname⟩ := find_eq_some_iff.mp hfind
    cases hvalue : o.value with
    | none => exact absurd ⟨o.toOptionDecl, List.mem_map_of_mem ho, hname, hvalue⟩ h
    | some spec =>
      simp only [CmdOption.set, hvalue]
      exact ⟨_, rfl⟩

theorem setOptionValue_of_not (h : ¬ Takes p.decls name val) :
    ∃ e, p.setOptionValue name val = p.error e := by
  rw [setOptionValue]
  cases hfind : p.find name with
  | none => exact ⟨_, rfl⟩
  | some o =>
    obtain ⟨ho, hname⟩ := find_eq_some_iff.mp hfind
    cases hvalue : o.value with
    | none =>
      simp only [CmdOption.setValue, hvalue]
      exact ⟨_, rfl⟩
    | some spec =>
      simp only [CmdOption.setValue, hvalue]
      split
      next heq =>
        split at heq
        next hreads =>
          exact absurd ⟨o.toOptionDecl, List.mem_map_of_mem ho, hname, spec, hvalue, hreads⟩ h
        · cases heq
      · exact ⟨_, rfl⟩

end Parser

end Cmdline

end SampleTools
