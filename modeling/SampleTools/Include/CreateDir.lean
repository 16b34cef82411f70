import SampleTools.Library.CString

/-!
# Creating a directory

`CreateDir` copies the name of a directory into a buffer of 100 characters, with a `/` at its end,
and cuts it there at one `/` after the other: each part that does not exist is created.

The file system is a state of any type, so that it may keep the calls. What the buffer holds at
first is not known.

## Main definitions

* `createDir`: `none` where it reads or writes outside of its name or its buffer
* `prefixes`, `walk`: the directories to create, one after the other
* `Walks`: `createDir` creates them and stays inside

## Main results

* `createDir_eq`: the directories that are created
* `walks_iff`: when they are those of the name
-/

namespace SampleTools

namespace Util

open CString

/-- `access` and `mkdir`: whether they succeed, and the file system behind them. -/
structure FileSystem (W : Type) where
  access : W → List Char → Bool × W
  mkdir : W → List Char → Bool × W

variable {W : Type}

/-- A directory is created unless it exists. -/
def makeDir (fs : FileSystem W) (w : W) (path : List Char) : Bool × W :=
  match fs.access w path with
  | (true, w) => (true, w)
  | (false, w) => fs.mkdir w path

/-- The loop of `CreateDir`, with the buffer up to its zero at `len`. -/
def createLoop (fs : FileSystem W) (len i : ℕ) (w : W) (dirPath : List Char) : Option (ℤ × W) :=
  if _h : i < len then do
    let c ← read dirPath i
    if c = '/' ∧ i > 0 then
      -- the name ends here for the time of the calls
      let cut ← write dirPath i '\x00'
      match makeDir fs w (ofBuffer cut) with
      | (false, w) => some (-1, w)
      | (true, w) =>
        let dirPath ← write cut i '/'
        createLoop fs len (i + 1) w dirPath
    else createLoop fs len (i + 1) w dirPath
  else some (0, w)
termination_by len - i

/-- `CreateDir`, with what its buffer holds before. `strlen` is converted to `int`, and this to
`size_t` for `strncpy`. -/
def createDir (fs : FileSystem W) (w : W) (dirPath : List Char) (pszDir : CString) :
    Option (ℤ × W) := do
  let iLen := (BitVec.ofNat 32 pszDir.chars.length).toInt
  let last ← read pszDir.cells (iLen - 1)
  let dirPath ←
    if last ≠ '/' then do
      let dirPath ← write dirPath iLen '/'
      write dirPath (iLen + 1) '\x00'
    else write dirPath iLen '\x00'
  let dirPath ← strncpy dirPath pszDir (BitVec.ofInt 64 iLen).toNat
  let len ← strlen dirPath
  createLoop fs len 0 w dirPath

/-! ## The directories of a name -/

/-- The name with a `/` at its end. -/
def dirName (name : List Char) : List Char :=
  if name.getLast? = some '/' then name else name ++ ['/']

/-- The prefixes of a name that end just before a `/`, but not before it begins: those before an
index from `i` on. -/
def prefixesFrom (s : List Char) (i : ℕ) : List (List Char) :=
  ((List.range' i (s.length - i)).filter fun j => s[j]? = some '/' ∧ j > 0).map s.take

/-- All of them, in increasing length. -/
def prefixes (s : List Char) : List (List Char) := prefixesFrom s 0

/-- The directories are created one after the other, until one cannot be created. -/
def walk (fs : FileSystem W) : W → List (List Char) → ℤ × W
  | w, [] => (0, w)
  | w, path :: paths =>
    match makeDir fs w path with
    | (false, w) => (-1, w)
    | (true, w) => walk fs w paths

/-- For every file system and whatever the buffer holds: `CreateDir` stays inside of the name and
the buffer, and creates the directories of the name. -/
def Walks (pszDir : CString) : Prop :=
  ∀ (W : Type) (fs : FileSystem W) (w : W) (dirPath : List Char), dirPath.length = 100 →
    createDir fs w dirPath pszDir = some (walk fs w (prefixes (dirName pszDir.chars)))

/-! ## One directory after the other -/

theorem mem_prefixes_iff {s p : List Char} :
    p ∈ prefixes s ↔ p ≠ [] ∧ ∃ t, s = p ++ '/' :: t := by
  simp only [prefixes, prefixesFrom, List.mem_map, List.mem_filter, List.mem_range'_1,
    decide_eq_true_eq]
  constructor
  · rintro ⟨j, ⟨-, hslash, hpos⟩, rfl⟩
    obtain ⟨hj, hget⟩ := List.getElem?_eq_some_iff.mp hslash
    refine ⟨?_, s.drop (j + 1), ?_⟩
    · apply List.ne_nil_of_length_pos
      rw [List.length_take_of_le hj.le]
      exact hpos
    · rw [← hget, ← List.drop_eq_getElem_cons, List.take_append_drop]
  · rintro ⟨hne, t, rfl⟩
    refine ⟨p.length, ⟨?_, ?_, List.length_pos_iff.mpr hne⟩, List.take_left⟩
    · rw [List.length_append, List.length_cons]
      omega
    · rw [List.getElem?_append_right le_rfl, Nat.sub_self, List.getElem?_cons_zero]

/-- A `/` behind another one gives a prefix of its own. -/
example : prefixes (dirName "/a//b".toList) = ["/a".toList, "/a/".toList, "/a//b".toList] := by
  decide

theorem prefixesFrom_of_le {s : List Char} {i : ℕ} (h : s.length ≤ i) : prefixesFrom s i = [] := by
  rw [prefixesFrom, Nat.sub_eq_zero_of_le h]
  rfl

theorem prefixesFrom_append (a b : List Char) (c : Char) :
    prefixesFrom (a ++ c :: b) a.length =
      (if c = '/' ∧ a.length > 0 then [a] else []) ++
        prefixesFrom (a ++ c :: b) (a.length + 1) := by
  have hrange : (a ++ c :: b).length - a.length = ((a ++ c :: b).length - (a.length + 1)) + 1 := by
    rw [List.length_append, List.length_cons]
    omega
  have hget : (a ++ c :: b)[a.length]? = some c := by
    rw [List.getElem?_append_right le_rfl, Nat.sub_self, List.getElem?_cons_zero]
  rw [prefixesFrom, hrange, List.range'_succ, List.filter_cons, hget, prefixesFrom]
  by_cases hslash : c = '/' ∧ a.length > 0
  · rw [if_pos hslash, if_pos (by simpa using hslash), List.map_cons, List.take_left]
    rfl
  · rw [if_neg hslash, if_neg (by simpa using hslash)]
    rfl

/-- One round: the buffer is behind it as it was before. -/
theorem createLoop_append (fs : FileSystem W) (w : W) {len : ℕ} {a : List Char} (b : List Char)
    (c : Char) (ha : '\x00' ∉ a) (hlen : a.length < len) :
    createLoop fs len a.length w (a ++ c :: b) =
      if c = '/' ∧ a.length > 0 then
        match makeDir fs w a with
        | (false, w) => some (-1, w)
        | (true, w) => createLoop fs len (a.length + 1) w (a ++ c :: b)
      else createLoop fs len (a.length + 1) w (a ++ c :: b) := by
  rw [createLoop, dif_pos hlen, read_append rfl]
  simp only [Option.bind_eq_bind, Option.bind_some]
  split_ifs with hslash
  · rw [write_append rfl, Option.bind_some, ofBuffer_append ha]
    split
    · rfl
    · rw [write_append rfl, Option.bind_some, hslash.1]
  · rfl

/-- The loop goes through the buffer and creates what is left of the directories. -/
theorem createLoop_eq (fs : FileSystem W) (w : W) (done todo rest : List Char)
    (hzero : '\x00' ∉ done ++ todo) :
    createLoop fs (done ++ todo).length done.length w (done ++ todo ++ '\x00' :: rest) =
      some (walk fs w (prefixesFrom (done ++ todo) done.length)) := by
  induction todo generalizing done w with
  | nil =>
    rw [createLoop, dif_neg (by simp), prefixesFrom_of_le (by simp)]
    rfl
  | cons c todo ih =>
    have hlt : done.length < (done ++ c :: todo).length := by simp
    have hdone : '\x00' ∉ done := fun hmem => hzero (List.mem_append_left _ hmem)
    -- the rest of the loop, from behind the character
    have hnext : ∀ w, createLoop fs (done ++ c :: todo).length (done.length + 1) w
        (done ++ c :: (todo ++ '\x00' :: rest)) =
          some (walk fs w (prefixesFrom (done ++ c :: todo) (done.length + 1))) := by
      intro w
      have hrest := ih w (done ++ [c]) (by simpa using hzero)
      simpa using hrest
    rw [List.append_assoc, List.cons_append, createLoop_append fs w _ c hdone hlt,
      prefixesFrom_append]
    split_ifs with hslash
    · rw [List.singleton_append, walk]
      split
      · rfl
      · rw [hnext]
    · rw [List.nil_append, hnext]

/-! ## The name in the buffer -/

theorem dirName_append (a : List Char) (c : Char) :
    dirName (a ++ [c]) = a ++ [c] ++ if c = '/' then [] else ['/'] := by
  simp only [dirName, List.getLast?_concat, Option.some_inj]
  split_ifs
  · rw [List.append_nil]
  · rfl

section Copy

variable {pszDir : CString} {a more x dirPath : List Char} {c : Char}

/-- The part of `createDir` behind the first zero of its buffer. -/
theorem createLoop_strncpy (fs : FileSystem W) (w : W) {y : List Char} (rest : List Char)
    (hchars : pszDir.chars = a ++ c :: more) (hx : x.length = a.length + 1) (hy : '\x00' ∉ y) :
    (do
      let dirPath ← strncpy (x ++ (y ++ '\x00' :: rest)) pszDir (a.length + 1)
      let len ← strlen dirPath
      createLoop fs len 0 w dirPath) = some (walk fs w (prefixes (a ++ [c] ++ y))) := by
  have hfit : x.length ≤ pszDir.chars.length := by
    rw [hchars, hx, List.length_append, List.length_cons]
    omega
  have htake : pszDir.chars.take x.length = a ++ [c] := by
    rw [hchars, hx, List.take_length_add_append, List.take_succ_cons, List.take_zero]
  have hzero : '\x00' ∉ a ++ [c] ++ y := by
    have hname := pszDir.zero_notMem
    rw [hchars] at hname
    simp_all
  have hloop := createLoop_eq fs w [] (a ++ [c] ++ y) rest (by simpa using hzero)
  rw [← hx, strncpy_append hfit, htake, ← List.append_assoc]
  simp only [Option.bind_eq_bind, Option.bind_some, strlen_append hzero]
  exact hloop

/-- A name of which `int` tells the part in front of `more`: this part is what is copied. -/
theorem createDir_of_chars (fs : FileSystem W) (w : W) (hbuf : dirPath.length = 100)
    (hchars : pszDir.chars = a ++ c :: more)
    (hint : (BitVec.ofNat 32 pszDir.chars.length).toInt = a.length + 1) :
    createDir fs w dirPath pszDir =
      if (dirName (a ++ [c])).length < 100 then
        some (walk fs w (prefixes (dirName (a ++ [c]))))
      else none := by
  have hlt := BitVec.toInt_lt (x := BitVec.ofNat 32 pszDir.chars.length)
  have hcount : (BitVec.ofInt 64 (a.length + 1)).toNat = a.length + 1 := by
    rw [BitVec.toNat_ofInt]
    omega
  have hlast : read pszDir.cells (a.length + 1 - 1) = some c := by
    rw [cells, hchars, List.append_assoc]
    exact read_append (by omega)
  simp only [createDir, hint, hlast, hcount, dirName_append, Option.bind_eq_bind,
    Option.bind_some, List.length_append, List.length_singleton]
  by_cases hc : c = '/'
  · -- the name ends in a slash: only the zero is written after the copy
    rw [if_neg (not_not.mpr hc), if_pos hc, List.length_nil, List.append_nil]
    by_cases hfit : a.length + 1 < dirPath.length
    · obtain ⟨x, d, rest, rfl, hx⟩ := exists_append_of_lt hfit
      have hcopy := createLoop_strncpy (y := []) fs w rest hchars hx (by simp)
      rw [write_append (by omega), Option.bind_some, if_pos (by omega)]
      simpa using hcopy
    · rw [write_of_le (by omega), Option.bind_none, if_neg (by omega)]
  · -- a slash and a zero are written, so one cell more is needed
    rw [if_pos hc, if_neg hc, List.length_singleton]
    by_cases hfit : a.length + 1 + 1 < dirPath.length
    · obtain ⟨x, d, rest, rfl, hx⟩ := exists_append_of_lt (Nat.lt_of_succ_lt hfit)
      cases rest with
      | nil =>
        rw [List.length_append, List.length_singleton] at hfit
        omega
      | cons e rest =>
        have hcopy := createLoop_strncpy (y := ['/']) fs w rest hchars hx (by decide)
        have hsecond : write (x ++ '/' :: e :: rest) (a.length + 1 + 1) '\x00' =
            some (x ++ '/' :: '\x00' :: rest) := by
          have happend := @write_append (x ++ ['/']) rest e '\x00' (a.length + 1 + 1) (by simp [hx])
          simpa using happend
        rw [write_append (by omega), Option.bind_some, hsecond, Option.bind_some,
          if_pos (by omega)]
        exact hcopy
    · rw [if_neg (by omega)]
      cases hfirst : write dirPath (a.length + 1) '/' with
      | none => rfl
      | some buf =>
        have hlen := length_of_write hfirst
        rw [Option.bind_some, write_of_le (by omega), Option.bind_none]

/-- How many characters `CreateDir` takes the name to have. -/
def intLen (pszDir : CString) : ℕ := (BitVec.ofNat 32 pszDir.chars.length).toInt.toNat

theorem intLen_le (pszDir : CString) : intLen pszDir ≤ pszDir.chars.length := by
  rw [intLen, BitVec.toInt_eq_toNat_cond, BitVec.toNat_ofNat]
  split <;> omega

theorem intLen_of_lt (h : pszDir.chars.length < 2 ^ 31) :
    intLen pszDir = pszDir.chars.length := by
  rw [intLen, BitVec.toInt_eq_toNat_cond, BitVec.toNat_ofNat]
  split <;> omega

/-- `CreateDir` creates the directories of so many characters of the name, if there are any and they
fit the buffer, and reads or writes outside otherwise. -/
theorem createDir_eq (fs : FileSystem W) (w : W) (hbuf : dirPath.length = 100)
    (pszDir : CString) : createDir fs w dirPath pszDir =
      if intLen pszDir ≠ 0 ∧ (dirName (pszDir.chars.take (intLen pszDir))).length < 100 then
        some (walk fs w (prefixes (dirName (pszDir.chars.take (intLen pszDir)))))
      else none := by
  have hle := intLen_le pszDir
  by_cases hzero : intLen pszDir = 0
  · have hneg : (BitVec.ofNat 32 pszDir.chars.length).toInt - 1 < 0 := by
      rw [intLen] at hzero
      omega
    rw [if_neg fun h => h.1 hzero, createDir, read_of_neg hneg]
    rfl
  · obtain ⟨a, c, more, hchars, ha⟩ :=
      @exists_append_of_lt pszDir.chars (intLen pszDir - 1) (by omega)
    have hlen : intLen pszDir = a.length + 1 := by omega
    have hint : (BitVec.ofNat 32 pszDir.chars.length).toInt = a.length + 1 := by
      rw [intLen] at hlen
      omega
    have htake : pszDir.chars.take (intLen pszDir) = a ++ [c] := by
      rw [hchars, hlen, List.take_length_add_append, List.take_succ_cons, List.take_zero]
    rw [createDir_of_chars fs w hbuf hchars hint, htake, hlen]
    simp

end Copy

/-! ## The directories of the whole name -/

theorem exists_dirName (name : List Char) : ∃ p, dirName name = p ++ ['/'] := by
  rw [dirName]
  split_ifs with hlast
  · obtain ⟨p, hp⟩ := List.getLast?_eq_some_iff.mp hlast
    exact ⟨p, hp⟩
  · exact ⟨name, rfl⟩

theorem length_le_dirName (name : List Char) : name.length ≤ (dirName name).length := by
  rw [dirName]
  split_ifs
  · exact le_rfl
  · rw [List.length_append]
    omega

/-- A file system where everything exists, and that keeps what it was asked for. -/
def asked : FileSystem (List (List Char)) where
  access w path := (true, w ++ [path])
  mkdir w _ := (true, w)

theorem walk_asked (w paths : List (List Char)) : walk asked w paths = (0, w ++ paths) := by
  induction paths generalizing w with
  | nil => rw [walk, List.append_nil]
  | cons path paths ih =>
    show walk asked (w ++ [path]) paths = _
    rw [ih, List.append_assoc, List.singleton_append]

/-- **A directory is created exactly if its name is not empty and fits the buffer.** For every name,
every file system and every content of the buffer: `CreateDir` stays inside of the name and of the
buffer, and looks for the prefixes of the name that end just before a `/`, creating the ones that do
not exist until one cannot be created, exactly if the name is not empty and has at most 99
characters with the `/` at its end. -/
theorem walks_iff (pszDir : CString) :
    Walks pszDir ↔ pszDir.chars ≠ [] ∧ (dirName pszDir.chars).length ≤ 99 := by
  have hname := length_le_dirName pszDir.chars
  constructor
  · intro hwalks
    have hasked := hwalks _ asked [] (List.replicate 100 'x') List.length_replicate
    rw [createDir_eq _ _ List.length_replicate, walk_asked, walk_asked] at hasked
    split at hasked
    next hfit =>
      have hle := intLen_le pszDir
      have hpaths : prefixes (dirName (pszDir.chars.take (intLen pszDir))) =
          prefixes (dirName pszDir.chars) := by
        simpa using hasked
      refine ⟨List.ne_nil_of_length_pos (by omega), ?_⟩
      -- otherwise the longest prefix is not asked for
      by_contra hlong
      obtain ⟨p, hp⟩ := exists_dirName pszDir.chars
      have hplen : (dirName pszDir.chars).length = p.length + 1 := by
        rw [hp, List.length_append, List.length_singleton]
      have hmem : p ∈ prefixes (dirName pszDir.chars) :=
        mem_prefixes_iff.mpr ⟨List.ne_nil_of_length_pos (by omega), [], hp⟩
      rw [← hpaths] at hmem
      obtain ⟨-, t, ht⟩ := mem_prefixes_iff.mp hmem
      rw [ht, List.length_append, List.length_cons] at hfit
      omega
    next => cases hasked
  · rintro ⟨hne, hfit⟩ W fs w dirPath hbuf
    have hpos := List.length_pos_iff.mpr hne
    have hlen : intLen pszDir = pszDir.chars.length := intLen_of_lt (by omega)
    rw [createDir_eq fs w hbuf, hlen, List.take_length, if_pos ⟨hpos.ne', by omega⟩]

/-- The empty name is read in front of its beginning. With a name of 99 characters the zero is
written behind the buffer. -/
theorem walks_fails :
    createDir asked [] (List.replicate 100 'x') ⟨[], by decide⟩ = none ∧
    createDir asked [] (List.replicate 100 'x') ⟨List.replicate 99 'x', by decide⟩ = none ∧
    ¬ Walks ⟨[], by decide⟩ ∧ ¬ Walks ⟨List.replicate 99 'x', by decide⟩ := by
  refine ⟨rfl, rfl, ?_, ?_⟩
  · intro hwalks
    cases hwalks _ asked [] (List.replicate 100 'x') List.length_replicate
  · intro hwalks
    cases hwalks _ asked [] (List.replicate 100 'x') List.length_replicate

end Util

end SampleTools
