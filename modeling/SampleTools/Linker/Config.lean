import SampleTools.Library.CString
import SampleTools.Library.Cut
import SampleTools.Library.Lines

/-!
# The configuration file

`readConfigFile` reads the lines of a file until one of them has the key in front of its first
`=`. A line without `=` ends the search.

A line is a `std::string` made of a buffer, which ends at the first zero. The file is open, which an
`fstream` is in its default mode only if it may be read and written, and it is read without errors.

## Main definitions

* `readConfigFile`: what is returned, and the value
* `LooksUp`: the value is the one of the first line with the key
* `Reached`: the lines in front of that line have an `=`

## Main results

* `readConfigFile_eq`: the stream is read line by line
* `looksUp_iff`: the lookup is right exactly if the line is reached
-/

namespace SampleTools

namespace Config

open CString IStream

/-- The body of the loop: what it returns with a line, if it does. -/
def readLine (key value tmp : List Char) : Option (Bool × List Char) :=
  let line := ofBuffer tmp
  match line.findIdx? (· = '=') with
  -- the line has no `=`, and the search is over
  | none => some (false, value)
  | some pos => if key = line.take pos then some (true, line.drop (pos + 1)) else none

theorem readLine_nil (key value : List Char) : readLine key value [] = some (false, value) := rfl

/-- The loop of `readConfigFile`. -/
def readLoop (key value : List Char) (cfgFile : IStream Char) : Bool × List Char :=
  if cfgFile.eof then (false, value) else
    match _h : readLine key value (cfgFile.getline 1000 '\n').1 with
    | some result => result
    | none => readLoop key value (cfgFile.getline 1000 '\n').2
termination_by cfgFile.rest.length
decreasing_by
  -- the line had an `=`
  apply length_getline_lt
  intro hnil
  rw [hnil, readLine_nil] at _h
  cases _h

/-- `readConfigFile`, with the text of the file if it can be opened. -/
def readConfigFile (cfgFile : Option (List Char)) (key value : List Char) : Bool × List Char :=
  match cfgFile with
  | none => (false, value)
  | some text => readLoop key value (ofList text)

/-! ## The lines of a file -/

/-- The text in front of the first `=`. -/
def lineKey (line : List Char) : List Char := line.takeWhile (· ≠ '=')

/-- The text behind the first `=`. -/
def lineValue (line : List Char) : List Char := (line.dropWhile (· ≠ '=')).tail

/-- A line of the form key=value, with that key. -/
def Names (key line : List Char) : Prop := '=' ∈ line ∧ lineKey line = key

instance (key line : List Char) : Decidable (Names key line) := inferInstanceAs (Decidable (_ ∧ _))

/-- The result of a lookup in these lines: true exactly if a line has the key, and then with the
value of the first one. -/
def IsLookup (key : List Char) (lines : List (List Char)) (result : Bool × List Char) : Prop :=
  (result.1 = true ↔ ∃ line ∈ lines, Names key line) ∧
    (result.1 = true → (lines.find? (Names key ·)).map lineValue = some result.2)

instance (key : List Char) (lines : List (List Char)) (result : Bool × List Char) :
    Decidable (IsLookup key lines result) := inferInstanceAs (Decidable (_ ∧ _))

/-- `readConfigFile` looks a key up in the lines of a file. -/
def LooksUp (text key value : List Char) : Prop :=
  IsLookup key (text.splitOn '\n') (readConfigFile (some text) key value)

/-- If a line has the key, those before the first of them have an `=`, not behind a zero, and it
has no zero itself. -/
def Reached (key : List Char) (lines : List (List Char)) : Prop :=
  (∃ line ∈ lines, Names key line) →
    (∀ line ∈ lines.takeWhile (¬ Names key ·), '=' ∈ ofBuffer line) ∧
      ∀ line ∈ lines.find? (Names key ·), '\x00' ∉ line

instance (key : List Char) (lines : List (List Char)) : Decidable (Reached key lines) :=
  inferInstanceAs (Decidable (_ → _))

variable {key value line a b : List Char} {lines : List (List Char)} {result : Bool × List Char}

theorem exists_eq_of_mem (h : '=' ∈ line) : ∃ a b, line = a ++ '=' :: b ∧ '=' ∉ a := by
  obtain hnone | ⟨a, c, b, rfl, ha, hc⟩ := Cut.exists_separator (· = '=') line
  · exact absurd (hnone _ h) (by decide)
  · rw [of_decide_eq_true hc]
    exact ⟨a, b, rfl, fun hmem => absurd (ha _ hmem) (by decide)⟩

theorem lineKey_append (ha : '=' ∉ a) : lineKey (a ++ '=' :: b) = a := Cut.takeWhile_ne_append ha

theorem lineValue_append (ha : '=' ∉ a) : lineValue (a ++ '=' :: b) = b := by
  rw [lineValue, Cut.dropWhile_ne_append ha, List.tail_cons]

theorem names_append (ha : '=' ∉ a) : Names key (a ++ '=' :: b) ↔ a = key := by
  rw [Names, lineKey_append ha, and_iff_right (List.mem_append_right _ List.mem_cons_self)]

theorem readLine_of_not_mem (h : '=' ∉ ofBuffer line) :
    readLine key value line = some (false, value) := by
  have hnone : (ofBuffer line).findIdx? (· = '=') = none :=
    List.findIdx?_eq_none_iff.mpr fun c hc => decide_eq_false (ne_of_mem_of_not_mem hc h)
  simp only [readLine, hnone]

theorem readLine_append (h : ofBuffer line = a ++ '=' :: b) (ha : '=' ∉ a) :
    readLine key value line = if key = a then some (true, b) else none := by
  have hdrop : (a ++ '=' :: b).drop (a.length + 1) = b := by
    rw [← List.drop_drop, List.drop_left, List.drop_one, List.tail_cons]
  simp only [readLine, h, Cut.findIdx?_eq_append ha, List.take_left, hdrop]

/-! ## Reading line by line -/

theorem readLoop_of_getline {cfgFile cfgFile' : IStream Char} (heof : cfgFile.eof = false)
    (hline : cfgFile.getline 1000 '\n' = (line, cfgFile')) : readLoop key value cfgFile =
      (readLine key value line).getD (readLoop key value cfgFile') := by
  rw [readLoop, if_neg (by simp [heof])]
  split
  next h =>
    rw [hline] at h
    rw [h, Option.getD_some]
  next h =>
    rw [hline] at h
    rw [h, Option.getD_none, hline]

theorem readLoop_of_eof {cfgFile : IStream Char} (heof : cfgFile.eof = true) :
    readLoop key value cfgFile = (false, value) := by
  rw [readLoop, if_pos heof]

/-- The loop comes to every line that the lines before it let it come to. -/
theorem readLoop_intercalate (hne : lines ≠ []) (hlines : ∀ line ∈ lines, '\n' ∉ line)
    (hlen : ∀ line ∈ lines, line.length < 1000) :
    readLoop key value (ofList (['\n'].intercalate lines)) =
      (lines.findSome? (readLine key value)).getD (false, value) := by
  induction lines with
  | nil => exact absurd rfl hne
  | cons line rest ih =>
    have hline := hlines line List.mem_cons_self
    have hshort := hlen line List.mem_cons_self
    rw [List.findSome?_cons]
    cases rest with
    | nil =>
      -- reading the last line reaches the end of the file
      rw [List.intercalate_singleton, readLoop_of_getline rfl (getline_last hline hshort),
        readLoop_of_eof rfl]
      cases readLine key value line <;> rfl
    | cons next rest =>
      have hrest := ih (List.cons_ne_nil _ _) (fun l hl => hlines l (List.mem_cons_of_mem _ hl))
        (fun l hl => hlen l (List.mem_cons_of_mem _ hl))
      rw [List.intercalate_cons_cons, List.append_assoc, List.singleton_append,
        readLoop_of_getline rfl (getline_append hline hshort), hrest]
      cases readLine key value line <;> rfl

/-- The first line that the body of the loop returns with decides, if the lines fit the buffer. -/
theorem readConfigFile_eq (key value : List Char) {text : List Char}
    (hlen : ∀ line ∈ text.splitOn '\n', line.length < 1000) :
    readConfigFile (some text) key value =
      ((text.splitOn '\n').findSome? (readLine key value)).getD (false, value) := by
  have hloop := @readLoop_intercalate key value _ (List.splitOn_ne_nil '\n' text)
    (fun _ => Cut.not_mem_of_mem_splitOn) hlen
  rwa [List.intercalate_splitOn] at hloop

/-! ## The first line with the key -/

theorem exists_names_cons_iff (h : ¬ Names key line) :
    (∃ l ∈ line :: lines, Names key l) ↔ ∃ l ∈ lines, Names key l := by
  rw [List.exists_mem_cons_iff, or_iff_right h]

theorem isLookup_false :
    IsLookup key lines (false, value) ↔ ¬ ∃ line ∈ lines, Names key line := by
  simp [IsLookup]

theorem isLookup_cons_of_not_names (h : ¬ Names key line) :
    IsLookup key (line :: lines) result ↔ IsLookup key lines result := by
  rw [IsLookup, exists_names_cons_iff h, List.find?_cons_of_neg (by simpa using h)]
  rfl

theorem reached_cons_of_not_names (h : ¬ Names key line) : Reached key (line :: lines) ↔
    ((∃ l ∈ lines, Names key l) → '=' ∈ ofBuffer line) ∧ Reached key lines := by
  rw [Reached, exists_names_cons_iff h, List.takeWhile_cons_of_pos (by simpa using h),
    List.find?_cons_of_neg (by simpa using h), List.forall_mem_cons, and_assoc, imp_and]
  rfl

theorem isLookup_cons_of_names (h : Names key line) : IsLookup key (line :: lines) result ↔
    result = (true, lineValue line) := by
  have hexists : ∃ l ∈ line :: lines, Names key l := ⟨line, List.mem_cons_self, h⟩
  rw [IsLookup, iff_true_right hexists, List.find?_cons_of_pos (by simpa using h), Option.map_some,
    Option.some_inj, Prod.ext_iff]
  constructor
  · rintro ⟨hfound, hvalue⟩
    exact ⟨hfound, (hvalue hfound).symm⟩
  · rintro ⟨hfound, hvalue⟩
    exact ⟨hfound, fun _ => hvalue.symm⟩

theorem reached_cons_of_names (h : Names key line) :
    Reached key (line :: lines) ↔ '\x00' ∉ line := by
  have hexists : ∃ l ∈ line :: lines, Names key l := ⟨line, List.mem_cons_self, h⟩
  rw [Reached, imp_iff_right hexists, List.takeWhile_cons_of_neg (by simpa using h),
    List.find?_cons_of_pos (by simpa using h)]
  simp

/-- The loop returns with the line that has the key, and with its value if it has no zero. -/
theorem exists_readLine_of_names (value : List Char) (h : Names key line) :
    ∃ result, readLine key value line = some result ∧
      (result = (true, lineValue line) ↔ '\x00' ∉ line) := by
  obtain ⟨cut, hline, hzero⟩ := exists_ofBuffer_append line
  rw [hzero, not_not]
  by_cases hmem : '=' ∈ ofBuffer line
  · obtain ⟨a, b, hstr, ha⟩ := exists_eq_of_mem hmem
    have hsplit : line = a ++ '=' :: (b ++ cut) := by
      rw [hline, hstr, List.append_assoc, List.cons_append]
    have hkey : a = key := by rwa [hsplit, names_append ha] at h
    have hvalue : lineValue line = b ++ cut := by rw [hsplit, lineValue_append ha]
    refine ⟨(true, b), ?_, ?_⟩
    · rw [readLine_append hstr ha, if_pos hkey.symm]
    · rw [hvalue, Prod.mk.injEq, and_iff_right rfl, List.self_eq_append_right]
  · -- the `=` is behind the zero
    refine ⟨(false, value), readLine_of_not_mem hmem, ?_⟩
    apply iff_of_false
    · intro hresult
      cases hresult
    · rintro rfl
      rw [List.append_nil] at hline
      exact hmem (hline ▸ h.1)

/-- Another line is passed if it has an `=` in front of its first zero. -/
theorem readLine_of_not_names (h : ¬ Names key line) (hmem : '=' ∈ ofBuffer line) :
    readLine key value line = none := by
  obtain ⟨cut, hline, -⟩ := exists_ofBuffer_append line
  obtain ⟨a, b, hstr, ha⟩ := exists_eq_of_mem hmem
  rw [readLine_append hstr ha]
  apply if_neg
  rintro rfl
  apply h
  rw [hline, hstr, List.append_assoc, List.cons_append]
  exact (names_append ha).mpr rfl

/-- What the first deciding line gives is the lookup exactly if the line with the key is
reached. -/
theorem isLookup_iff_reached (key value : List Char) (lines : List (List Char)) :
    IsLookup key lines ((lines.findSome? (readLine key value)).getD (false, value)) ↔
      Reached key lines := by
  induction lines with
  | nil => simp [IsLookup, Reached]
  | cons line lines ih =>
    rw [List.findSome?_cons]
    by_cases hnames : Names key line
    · obtain ⟨result, hread, hresult⟩ := exists_readLine_of_names value hnames
      rw [isLookup_cons_of_names hnames, reached_cons_of_names hnames, hread]
      exact hresult
    · rw [isLookup_cons_of_not_names hnames, reached_cons_of_not_names hnames]
      by_cases hmem : '=' ∈ ofBuffer line
      · rw [readLine_of_not_names hnames hmem, ih]
        simp [hmem]
      · -- the search is over, which is right if no line has the key
        rw [readLine_of_not_mem hmem, Option.getD_some, isLookup_false]
        constructor
        · intro hnone
          exact ⟨fun hexists => absurd hexists hnone, fun hexists => absurd hexists hnone⟩
        · rintro ⟨hstop, -⟩ hexists
          exact hmem (hstop hexists)

/-- **The lookup is right exactly if nothing before the line stops it.** For every text whose lines
are shorter than 999 characters and every key: `readConfigFile` returns true exactly if a line has
the key in front of its first `=`, and then with the text behind the `=` of the first such line,
exactly if every line before that one has an `=`. -/
theorem looksUp_iff (text key value : List Char)
    (hlines : ∀ line ∈ text.splitOn '\n', line.length < 999) :
    LooksUp text key value ↔ Reached key (text.splitOn '\n') := by
  have hlen : ∀ line ∈ text.splitOn '\n', line.length < 1000 := fun line hline =>
    (hlines line hline).trans (Nat.lt_succ_self _)
  rw [LooksUp, readConfigFile_eq key value hlen]
  exact isLookup_iff_reached key value _

/-- The second line of a file without a line end behind it. -/
theorem looksUp_port : LooksUp "ip=172.17.0.4\nport=8888".toList "port".toList [] :=
  (looksUp_iff _ _ _ (by decide)).mpr (by decide)

/-- An empty line stops the search. -/
theorem looksUp_fails : ¬ LooksUp "\nip=172.17.0.4".toList "ip".toList [] := by
  have hread : readConfigFile (some "\nip=172.17.0.4".toList) "ip".toList [] = (false, []) := by
    rw [readConfigFile_eq _ _ (by decide)]
    rfl
  rw [LooksUp, hread]
  decide

end Config

end SampleTools
