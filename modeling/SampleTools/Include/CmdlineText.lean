import SampleTools.Include.CmdlineItems

/-!
# A command line in one text, and the check that ends the program

A text is cut into arguments at its spaces. A character behind a backslash stands for itself, and
so does a space between two quotes. The texts that are cut without an error are those that spell
words, and their arguments are what the words say; an empty last word is no argument.

`parse_check` adds an option for help, and then parses. It prints what there is to print and ends
the program, or goes on.

## Main definitions

* `Piece`, `Word`: a part of an argument as it is spelled, and an argument
* `spellWords`: words with a space between each two
* `escape`: one way to spell an argument
* `Parser.withHelp`: the parser that `parse_check` parses with

## Main results

* `Parser.splitLine_ok_iff`: the texts that are cut, and the arguments
* `Parser.parseLine_accepts_iff`: what is accepted in one text
* `Parser.parseLine_escape`: any arguments have a text
* `Parser.parseCheck_render`: what the program does after `parse_check`
-/

namespace SampleTools

namespace Cmdline

/-- A part of an argument as it is spelled; between quotes a character may be behind a
backslash. -/
inductive Piece
  | bare (c : Char)
  | escaped (c : Char)
  | quoted (cs : List (Bool × Char))

namespace Piece

/-- A character between quotes. -/
def spellQuoted (q : Bool × Char) : List Char := if q.1 then ['\\', q.2] else [q.2]

/-- How a piece is spelled. -/
def spell : Piece → List Char
  | bare c => [c]
  | escaped c => ['\\', c]
  | quoted cs => '"' :: (cs.flatMap spellQuoted ++ ['"'])

/-- What a piece says. -/
def text : Piece → Arg
  | bare c | escaped c => [c]
  | quoted cs => cs.map Prod.snd

/-- The characters that are not behind a backslash stand for themselves. -/
def Ok : Piece → Prop
  | bare c => c ≠ '"' ∧ c ≠ ' ' ∧ c ≠ '\\'
  | escaped _ => True
  | quoted cs => ∀ q ∈ cs, q.1 = false → q.2 ≠ '"' ∧ q.2 ≠ '\\'

end Piece

/-- An argument as it is spelled. -/
abbrev Word := List Piece

namespace Word

def spell (w : Word) : List Char := w.flatMap Piece.spell

def text (w : Word) : Arg := w.flatMap Piece.text

def Ok (w : Word) : Prop := ∀ piece ∈ w, piece.Ok

end Word

/-- Words with a space before each but the first. -/
def spellWords (w : Word) (ws : List Word) : List Char :=
  w.spell ++ ws.flatMap fun w => ' ' :: w.spell

/-- An empty last argument is dropped. -/
def dropEmptyLast : List Arg → List Arg
  | [] => []
  | [arg] => if arg = [] then [] else [arg]
  | arg :: arg' :: rest => arg :: dropEmptyLast (arg' :: rest)

/-- The arguments that some words say. -/
def wordArgs (w : Word) (ws : List Word) : List Arg :=
  dropEmptyLast (w.text :: ws.map Word.text)

namespace Parser

section Split

variable {buf : Arg} {args out : List Arg} {line rest : List Char}

/-! ## Cutting what words spell -/

theorem splitLine_quote {inQuote : Bool} :
    splitLine ('"' :: rest) buf inQuote args = splitLine rest buf (!inQuote) args := by
  rw [splitLine]

theorem splitLine_backslash {c : Char} {inQuote : Bool} :
    splitLine ('\\' :: c :: rest) buf inQuote args =
      splitLine rest (buf ++ [c]) inQuote args := by
  rw [splitLine]

theorem splitLine_bare {c : Char} {inQuote : Bool} (hquote : c ≠ '"') (hslash : c ≠ '\\')
    (hspace : inQuote = false → c ≠ ' ') :
    splitLine (c :: rest) buf inQuote args = splitLine rest (buf ++ [c]) inQuote args := by
  rw [splitLine]
  · exact hquote
  · intro hc _
    exact hslash hc
  · intro _ _ hc _
    exact hslash hc
  · exact hspace

theorem splitLine_space :
    splitLine (' ' :: rest) buf false args = splitLine rest [] false (args ++ [buf]) := by
  rw [splitLine]

/-- What stands between quotes is kept, up to the second quote. -/
theorem splitLine_quoted (cs : List (Bool × Char))
    (h : ∀ q ∈ cs, q.1 = false → q.2 ≠ '"' ∧ q.2 ≠ '\\') :
    splitLine (cs.flatMap Piece.spellQuoted ++ '"' :: rest) buf true args =
      splitLine rest (buf ++ cs.map Prod.snd) false args := by
  induction cs generalizing buf with
  | nil =>
    rw [List.flatMap_nil, List.nil_append, splitLine_quote, List.map_nil, List.append_nil]
    rfl
  | cons q cs ih =>
    obtain ⟨hq, hcs⟩ := List.forall_mem_cons.mp h
    obtain ⟨escaped, c⟩ := q
    rw [List.flatMap_cons, List.append_assoc, List.map_cons, List.append_cons buf, ← ih hcs]
    cases escaped with
    | true => exact splitLine_backslash
    | false =>
      obtain ⟨hquote, hslash⟩ := hq rfl
      exact splitLine_bare hquote hslash nofun

theorem splitLine_piece {piece : Piece} (h : piece.Ok) :
    splitLine (piece.spell ++ rest) buf false args =
      splitLine rest (buf ++ piece.text) false args := by
  cases piece with
  | bare c =>
    obtain ⟨hquote, hspace, hslash⟩ := h
    exact splitLine_bare hquote hslash fun _ => hspace
  | escaped c => exact splitLine_backslash
  | quoted cs =>
    rw [Piece.spell, List.cons_append, List.append_assoc, List.singleton_append, splitLine_quote]
    exact splitLine_quoted cs h

theorem splitLine_word {w : Word} (h : w.Ok) :
    splitLine (w.spell ++ rest) buf false args = splitLine rest (buf ++ w.text) false args := by
  induction w generalizing buf with
  | nil => rw [Word.text, List.flatMap_nil, List.append_nil]; rfl
  | cons piece w ih =>
    obtain ⟨hpiece, hw⟩ := List.forall_mem_cons.mp h
    rw [Word.spell, List.flatMap_cons, List.append_assoc, splitLine_piece hpiece]
    refine (ih hw).trans ?_
    rw [List.append_assoc]
    rfl

theorem splitLine_words {w : Word} (ws : List Word) (hw : w.Ok) (hws : ∀ w ∈ ws, Word.Ok w) :
    splitLine (spellWords w ws) buf false args =
      .ok (args ++ dropEmptyLast ((buf ++ w.text) :: ws.map Word.text)) := by
  induction ws generalizing w buf args with
  | nil =>
    rw [spellWords, splitLine_word hw, List.flatMap_nil, splitLine, List.map_nil, dropEmptyLast]
    by_cases hbuf : buf ++ w.text = []
    · simp [hbuf]
    · simp [hbuf]
  | cons w' ws ih =>
    obtain ⟨hw', hws⟩ := List.forall_mem_cons.mp hws
    rw [spellWords, splitLine_word hw, List.flatMap_cons, List.cons_append, splitLine_space]
    refine (ih hw' hws).trans ?_
    rw [List.nil_append, List.map_cons, dropEmptyLast, List.append_assoc, List.singleton_append]

/-! ## What is cut without an error -/

/-- Where a quote is open, it is closed. -/
theorem exists_quoted (hline : splitLine line buf true args = .ok out) :
    ∃ (cs : List (Bool × Char)) (rest : List Char),
      (∀ q ∈ cs, q.1 = false → q.2 ≠ '"' ∧ q.2 ≠ '\\') ∧
        line = cs.flatMap Piece.spellQuoted ++ '"' :: rest := by
  induction hlen : line.length using Nat.strong_induction_on generalizing line buf with
  | _ n ih =>
  subst hlen
  cases line with
  | nil => cases hline
  | cons c cs =>
  by_cases hquote : c = '"'
  · -- the quote ends here
    subst hquote
    exact ⟨[], cs, List.forall_mem_nil _, rfl⟩
  by_cases hslash : c = '\\'
  · subst hslash
    cases cs with
    | nil => cases hline
    | cons c cs =>
      rw [splitLine_backslash] at hline
      -- whatever is behind a backslash stands for itself
      obtain ⟨qs, rest, hqs, rfl⟩ := ih cs.length (by simp only [List.length_cons]; omega) hline rfl
      exact ⟨(true, c) :: qs, rest, List.forall_mem_cons.mpr ⟨nofun, hqs⟩, rfl⟩
  · have hspace : true = false → c ≠ ' ' := nofun
    rw [splitLine_bare hquote hslash hspace] at hline
    obtain ⟨qs, rest, hqs, rfl⟩ := ih cs.length (Nat.lt_succ_self _) hline rfl
    exact ⟨(false, c) :: qs, rest, List.forall_mem_cons.mpr ⟨fun _ => ⟨hquote, hslash⟩, hqs⟩, rfl⟩

/-- What is cut spells words. -/
theorem exists_words (hline : splitLine line buf false args = .ok out) :
    ∃ w ws, Word.Ok w ∧ (∀ w ∈ ws, Word.Ok w) ∧ line = spellWords w ws := by
  induction hlen : line.length using Nat.strong_induction_on generalizing line buf args with
  | _ n ih =>
  subst hlen
  -- a piece, and the words that begin behind it
  have hpiece : ∀ (piece : Piece) (rest : List Char) (buf : Arg), piece.Ok →
      line = piece.spell ++ rest → rest.length < line.length →
      splitLine rest buf false args = .ok out →
      ∃ w ws, Word.Ok w ∧ (∀ w ∈ ws, Word.Ok w) ∧ line = spellWords w ws := by
    intro piece rest buf hok hspell hlt hrest
    obtain ⟨w, ws, hw, hws, rfl⟩ := ih rest.length hlt hrest rfl
    refine ⟨piece :: w, ws, List.forall_mem_cons.mpr ⟨hok, hw⟩, hws, ?_⟩
    rw [hspell, spellWords, spellWords, ← List.append_assoc]
    rfl
  cases line with
  | nil => exact ⟨[], [], List.forall_mem_nil _, List.forall_mem_nil _, rfl⟩
  | cons c cs =>
  by_cases hquote : c = '"'
  · subst hquote
    rw [splitLine_quote] at hline
    obtain ⟨qs, rest, hqs, rfl⟩ := exists_quoted hline
    rw [Bool.not_false, splitLine_quoted qs hqs] at hline
    refine hpiece (.quoted qs) rest _ hqs ?_ ?_ hline
    · rw [Piece.spell, List.cons_append, List.append_assoc, List.singleton_append]
    · simp only [List.length_cons, List.length_append]
      omega
  by_cases hslash : c = '\\'
  · subst hslash
    cases cs with
    | nil => cases hline
    | cons c cs =>
      rw [splitLine_backslash] at hline
      exact hpiece (.escaped c) cs _ trivial rfl (by simp only [List.length_cons]; omega) hline
  by_cases hspace : c = ' '
  · -- the word ends here, and others begin
    subst hspace
    rw [splitLine_space] at hline
    obtain ⟨w, ws, hw, hws, rfl⟩ := ih cs.length (Nat.lt_succ_self _) hline rfl
    refine ⟨[], w :: ws, List.forall_mem_nil _, List.forall_mem_cons.mpr ⟨hw, hws⟩, ?_⟩
    rw [spellWords, spellWords, List.flatMap_cons]
    rfl
  · rw [splitLine_bare hquote hslash fun _ => hspace] at hline
    exact hpiece (.bare c) cs _ ⟨hquote, hspace, hslash⟩ rfl (Nat.lt_succ_self _) hline

/-- The texts that are cut, and the arguments. -/
theorem splitLine_ok_iff : splitLine line [] false [] = .ok out ↔
    ∃ w ws, Word.Ok w ∧ (∀ w ∈ ws, Word.Ok w) ∧ line = spellWords w ws ∧ out = wordArgs w ws := by
  constructor
  · intro h
    obtain ⟨w, ws, hw, hws, rfl⟩ := exists_words h
    rw [splitLine_words ws hw hws] at h
    exact ⟨w, ws, hw, hws, rfl, (Except.ok.inj h).symm⟩
  · rintro ⟨w, ws, hw, hws, rfl, rfl⟩
    exact splitLine_words ws hw hws

end Split

/-! ## Parsing one text -/

/-- A string up to its first null character. -/
def cString (arg : Arg) : Arg := arg.takeWhile (· ≠ Char.ofNat 0)

/-- What is accepted in one text. -/
theorem parseLine_accepts_iff {line : List Char} {p p' : Parser} :
    p.parseLine line = (true, p') ↔ Unambiguous p.decls ∧
      ∃ w ws, Word.Ok w ∧ (∀ w ∈ ws, Word.Ok w) ∧ line = spellWords w ws ∧
        ∃ prog items, (wordArgs w ws).map cString = prog :: items.flatMap Item.render ∧
          (∀ it ∈ items, it.Fits p.decls) ∧ p.NeedsMet items ∧ p' = p.result prog items := by
  rw [parseLine]
  cases hsplit : splitLine line [] false [] with
  | error e =>
    refine iff_of_false nofun ?_
    -- what spells words is cut without an error
    rintro ⟨-, w, ws, hw, hws, rfl, -⟩
    rw [splitLine_words ws hw hws] at hsplit
    cases hsplit
  | ok args =>
    refine parse_accepts_iff.trans (and_congr_right fun _ => ?_)
    obtain ⟨w, ws, hw, hws, rfl, rfl⟩ := splitLine_ok_iff.mp hsplit
    constructor
    · intro h
      exact ⟨w, ws, hw, hws, rfl, h⟩
    · rintro ⟨w', ws', hw', hws', heq, h⟩
      rw [heq, splitLine_words ws' hw' hws'] at hsplit
      exact Except.ok.inj hsplit ▸ h

end Parser

/-- A word that says an argument. -/
def escape (arg : Arg) : Word :=
  arg.map fun c => if c = '"' ∨ c = ' ' ∨ c = '\\' then .escaped c else .bare c

theorem escape_ok (arg : Arg) : (escape arg).Ok := by
  intro piece hpiece
  obtain ⟨c, -, rfl⟩ := List.mem_map.mp hpiece
  split
  · trivial
  next h =>
    simp only [not_or] at h
    exact h

@[simp] theorem text_escape (arg : Arg) : (escape arg).text = arg := by
  induction arg with
  | nil => rfl
  | cons c arg ih =>
    have hc : (if c = '"' ∨ c = ' ' ∨ c = '\\' then Piece.escaped c else .bare c).text = [c] := by
      split <;> rfl
    rw [escape, Word.text, List.map_cons, List.flatMap_cons, hc]
    exact congrArg (c :: ·) ih

theorem dropEmptyLast_of_getLast? {args : List Arg} (h : args.getLast? ≠ some []) :
    dropEmptyLast args = args := by
  fun_induction dropEmptyLast args with
  | case1 => rfl
  | case2 => exact absurd rfl h
  | case3 => rfl
  | case4 arg arg' rest ih => rw [ih h]

namespace Parser

/-- Any arguments have a text, unless the last is empty. -/
theorem parseLine_escape {prog : Arg} {args : List Arg} (p : Parser)
    (hnull : ∀ arg ∈ prog :: args, Char.ofNat 0 ∉ arg)
    (hlast : (prog :: args).getLast? ≠ some []) :
    p.parseLine (spellWords (escape prog) (args.map escape)) = p.parse (prog :: args) := by
  have hwords : ∀ w ∈ args.map escape, Word.Ok w :=
    List.forall_mem_map.mpr fun arg _ => escape_ok arg
  have htext : args.map (Word.text ∘ escape) = args :=
    (List.map_congr_left fun arg _ => text_escape arg).trans (List.map_id _)
  have hcString : (prog :: args).map cString = prog :: args := by
    refine (List.map_congr_left fun arg harg => ?_).trans (List.map_id _)
    apply List.takeWhile_eq_self_iff.mpr
    intro c hc
    apply decide_eq_true
    rintro rfl
    exact hnull arg harg hc
  rw [parseLine, splitLine_words _ (escape_ok prog) hwords, List.nil_append, List.nil_append,
    text_escape, List.map_map, htext, dropEmptyLast_of_getLast? hlast]
  exact congrArg p.parse hcString

/-! ## Checking -/

/-- The parser that `parse_check` parses with. -/
def withHelp (p : Parser) : Parser := (p.add helpOption).getD p

/-- Help has been asked for, before or by one of the items. -/
def HelpAsked (items : List Item) (p : Parser) : Prop :=
  ∃ o ∈ p.options, o.name = helpOption.name ∧
    (o.has = true ∨ ∃ it ∈ items, o.name ∈ it.sets.map Prod.fst)

theorem exist_iff {name : Arg} {p : Parser} :
    p.exist name = true ↔ ∃ o ∈ p.options, o.name = name ∧ o.has = true := by
  rw [exist, Option.any_eq_true]
  refine exists_congr fun o => ?_
  rw [find_eq_some_iff, and_assoc]

theorem exist_help_result (prog : Arg) {items : List Item} {p : Parser} :
    (p.result prog items).checkNeeded.exist helpOption.name = true ↔ p.HelpAsked items := by
  have hhelp : ∀ o : CmdOption, ((o.assignAll (items.flatMap Item.sets)).name = helpOption.name ∧
      (o.assignAll (items.flatMap Item.sets)).has = true) ↔ o.name = helpOption.name ∧
        (o.has = true ∨ ∃ it ∈ items, o.name ∈ it.sets.map Prod.fst) := by
    intro o
    rw [CmdOption.has_assignAll, CmdOption.toOptionDecl_assignAll, List.map_flatMap,
      List.mem_flatMap]
  rw [checkNeeded_eq, exist_iff]
  constructor
  · rintro ⟨_, hmap, h⟩
    obtain ⟨o, ho, rfl⟩ := List.mem_map.mp hmap
    exact ⟨o, ho, (hhelp o).mp h⟩
  · rintro ⟨o, ho, h⟩
    exact ⟨_, List.mem_map_of_mem ho, (hhelp o).mpr h⟩

section Check

variable {p p' : Parser} {argv : List Arg} {prog : Arg} {items : List Item}

/-- What the program does after items that fit. -/
theorem parseCheck_render (hunambiguous : Unambiguous p.withHelp.decls)
    (hitems : ∀ it ∈ items, it.Fits p.withHelp.decls) :
    (p.withHelp.HelpAsked items → p.parseCheck (prog :: items.flatMap Item.render) = .exits 0) ∧
      (¬ p.withHelp.HelpAsked items →
        (p.withHelp.NeedsMet items → p.parseCheck (prog :: items.flatMap Item.render) =
          .goesOn (p.withHelp.result prog items)) ∧
        (¬ p.withHelp.NeedsMet items → p.parseCheck (prog :: items.flatMap Item.render) =
          .exits (if items = [] then 0 else 1))) := by
  have hcheck : p.parseCheck (prog :: items.flatMap Item.render) =
      (p.withHelp.result prog items).checkNeeded.check (items.flatMap Item.render).length.succ
        (p.withHelp.result prog items).checkNeeded.errors.isEmpty := by
    rw [parseCheck, ← withHelp, parse_render hunambiguous hitems]
    rfl
  have hempty : (items.flatMap Item.render).length.succ = 1 ↔ items = [] := by
    rw [Nat.succ_inj, List.length_eq_zero_iff, List.flatMap_eq_nil_iff]
    constructor
    · intro h
      apply List.eq_nil_iff_forall_not_mem.mpr
      intro it hit
      rcases it.render_cases with ⟨arg, hrender⟩ | ⟨arg, val, hrender⟩
      · exact List.cons_ne_nil _ _ (hrender.symm.trans (h it hit))
      · exact List.cons_ne_nil _ _ (hrender.symm.trans (h it hit))
    · rintro rfl it hit
      cases hit
  rw [hcheck, check]
  refine ⟨fun hhelp => if_pos (.inr ((exist_help_result prog).mpr hhelp)), fun hhelp => ⟨?_, ?_⟩⟩
  · intro hneeds
    have hvalid := checkNeeded_of_valid ((valid_result_iff prog).mpr hneeds)
    have hok : (p.withHelp.result prog items).checkNeeded.errors.isEmpty = true := by
      rw [hvalid]
      rfl
    rw [← exist_help_result prog] at hhelp
    -- nothing is printed
    rw [if_neg (by simp [hok, hhelp]), if_neg (by simp [hok]), hvalid]
  · intro hneeds
    have hok : (p.withHelp.result prog items).checkNeeded.errors.isEmpty = false := by
      apply Bool.eq_false_iff.mpr
      intro h
      obtain ⟨-, hvalid⟩ := errors_checkNeeded_eq_nil_iff.mp (List.isEmpty_iff.mp h)
      exact hneeds ((valid_result_iff prog).mp hvalid)
    rw [← exist_help_result prog] at hhelp
    by_cases hitems : items = []
    · rw [if_pos (.inl ⟨hempty.mpr hitems, by simp [hok]⟩), if_pos hitems]
    · rw [if_neg, if_pos (by simp [hok]), if_neg hitems]
      rintro (⟨hlength, -⟩ | hexist)
      · exact hitems (hempty.mp hlength)
      · exact hhelp hexist

/-- When the program goes on after `parse_check`, and with what. -/
theorem parseCheck_goesOn_iff : p.parseCheck argv = .goesOn p' ↔
    Unambiguous p.withHelp.decls ∧ ∃ prog items, argv = prog :: items.flatMap Item.render ∧
      (∀ it ∈ items, it.Fits p.withHelp.decls) ∧ p.withHelp.NeedsMet items ∧
        ¬ p.withHelp.HelpAsked items ∧ p' = p.withHelp.result prog items := by
  constructor
  · intro h
    cases hparse : p.withHelp.parse argv with
    | mk ok p₁ =>
    cases ok with
    | false =>
      -- an error ends the program, with or without help
      rw [parseCheck, ← withHelp, hparse] at h
      simp only [check] at h
      split at h
      · cases h
      · cases h
    | true =>
      obtain ⟨hunambiguous, prog, items, rfl, hitems, hneeds, -⟩ := parse_accepts_iff.mp hparse
      by_cases hhelp : p.withHelp.HelpAsked items
      · rw [(parseCheck_render hunambiguous hitems).1 hhelp] at h
        cases h
      · rw [((parseCheck_render hunambiguous hitems).2 hhelp).1 hneeds] at h
        exact ⟨hunambiguous, prog, items, rfl, hitems, hneeds, hhelp, (Checked.goesOn.inj h).symm⟩
  · rintro ⟨hunambiguous, prog, items, rfl, hitems, hneeds, hhelp, rfl⟩
    exact ((parseCheck_render hunambiguous hitems).2 hhelp).1 hneeds

end Check

end Parser

end Cmdline

end SampleTools
