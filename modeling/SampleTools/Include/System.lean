import SampleTools.Library.CString
import SampleTools.Tcp.EventClient

/-!
# The lines a command prints

`util::system` runs a command and reads what it prints with `fgets`, into a buffer of 1024
characters. Of each string in the buffer it keeps all but the last character, which it takes for
the end of the line. The functions that ask etcd work on these lines.

## Main definitions

* `fgets`, `system`: reading the output
* `LinesFit`: the outputs whose lines fit the buffer
* `etcdLines`, `setKeyToEtcd`: the commands for etcd
* `EtcdEntry`: what etcd has under a prefix

## Main results

* `system_printed_iff`: `system` gives the lines that were printed, exactly if they fit
* `masterHosts_of_entries`: `get_master_host_from_etcd` gives the hosts that etcd has
* `setKeyToEtcd_iff`: which answers of etcd count as `OK`
-/

namespace SampleTools

namespace Util

/-! ## `system` -/

/-- The characters up to the end of a line, `room` at most, and what is left. -/
def takeChars : ℕ → List Char → List Char × List Char
  | 0, fp => ([], fp)
  | _, [] => ([], [])
  | room + 1, c :: fp =>
    if c = '\n' then ([c], fp) else
      let (line, rest) := takeChars room fp
      (c :: line, rest)

/-- `fgets`: what is read into a buffer of the size, in front of the zero, and what is left. -/
def fgets (size : ℕ) : List Char → Option (List Char × List Char)
  | [] => none
  | c :: fp => some (takeChars (size - 1) (c :: fp))

/-- `BUF_SIZE`. -/
def bufSize : ℕ := 1024

variable {fp fp' buf line out : List Char} {lines result : List (List Char)} {room size : ℕ}

/-- Everything `takeChars` does with what it is given. -/
theorem takeChars_spec (room : ℕ) (fp : List Char) :
    (takeChars room fp).1 ++ (takeChars room fp).2 = fp ∧
      (takeChars room fp).1.length ≤ room ∧ '\n' ∉ (takeChars room fp).1.dropLast ∧
      ((takeChars room fp).1.getLast? = some '\n' ∨ (takeChars room fp).1.length = room ∨
        (takeChars room fp).2 = []) := by
  fun_induction takeChars room fp with
  | case1 | case2 => simp
  | case3 => simp
  | case4 room c fp hc line rest hline ih =>
    rw [hline] at ih
    obtain ⟨happend, hlength, hnewline, hstop⟩ := ih
    refine ⟨congrArg (c :: ·) happend, Nat.succ_le_succ hlength, ?_, ?_⟩
    · cases line with
      | nil => exact List.not_mem_nil
      | cons d line =>
        rw [List.dropLast_cons_cons, List.mem_cons, not_or]
        exact ⟨Ne.symm hc, hnewline⟩
    · rcases hstop with hlast | hfull | hrest
      · exact .inl (by rw [List.getLast?_cons, hlast]; rfl)
      · exact .inr (.inl (congrArg Nat.succ hfull))
      · exact .inr (.inr hrest)

theorem takeChars_append (hline : '\n' ∉ line) (hroom : line.length < room) :
    takeChars room (line ++ '\n' :: fp) = (line ++ ['\n'], fp) := by
  induction line generalizing room with
  | nil =>
    obtain ⟨room, rfl⟩ := Nat.exists_eq_add_one.mpr hroom
    simp [takeChars]
  | cons c line ih =>
    obtain ⟨room, rfl⟩ := Nat.exists_eq_add_one.mpr (Nat.zero_lt_of_lt hroom)
    rw [List.mem_cons, not_or] at hline
    obtain ⟨hc, hline⟩ := hline
    rw [List.cons_append, takeChars, if_neg (Ne.symm hc), ih hline (Nat.lt_of_succ_lt_succ hroom)]
    rfl

/-- What `fgets` reads is the front of what is left: something, less than the size, and no more
than a line. It stops at the end of the line, with a full buffer, or where nothing is left. -/
theorem fgets_spec (hsize : 1 < size) (h : fgets size fp = some (buf, fp')) :
    buf ++ fp' = fp ∧ buf ≠ [] ∧ buf.length < size ∧ '\n' ∉ buf.dropLast ∧
      (buf.getLast? = some '\n' ∨ buf.length = size - 1 ∨ fp' = []) := by
  cases fp with
  | nil => cases h
  | cons c fp =>
    have hspec := takeChars_spec (size - 1) (c :: fp)
    rw [Option.some.inj h] at hspec
    obtain ⟨happend, hlength, hstops⟩ := hspec
    refine ⟨happend, ?_, Nat.lt_of_le_pred (Nat.zero_lt_of_lt hsize) hlength, hstops⟩
    rintro rfl
    obtain ⟨room, hroom⟩ : ∃ room, size - 1 = room + 1 := ⟨size - 2, by omega⟩
    have hbuf := congrArg Prod.fst (Option.some.inj h)
    rw [hroom, takeChars] at hbuf
    split_ifs at hbuf

theorem fgets_length_lt (h : fgets bufSize fp = some (buf, fp')) : fp'.length < fp.length := by
  obtain ⟨rfl, hbuf, -⟩ := fgets_spec (by decide) h
  have hpos := List.length_pos_iff.mpr hbuf
  rw [List.length_append]
  omega

/-- The loop of `system`. Behind what `fgets` reads there are zeros in the buffer. -/
def readLoop (fp : List Char) (result : List (List Char)) : List (List Char) :=
  match _ : fgets bufSize fp with
  | none => result
  | some (buf, fp') =>
    let data := CString.ofBuffer buf
    if data.length > 0 then readLoop fp' (result ++ [data.dropLast])
    else readLoop fp' result
termination_by fp.length
decreasing_by all_goals exact fgets_length_lt ‹_›

/-- `system`, given what the command prints, `none` if it cannot be run. -/
def system (popen : Option (List Char)) (result : List (List Char)) : ℤ × List (List Char) :=
  match popen with
  | none => (-1, result)
  | some fp => (0, readLoop fp result)

theorem fgets_append (hline : '\n' ∉ line) (hsize : line.length + 1 < size) :
    fgets size (line ++ '\n' :: fp) = some (line ++ ['\n'], fp) := by
  rw [← takeChars_append hline (Nat.lt_sub_of_add_lt hsize)]
  cases line <;> rfl

theorem readLoop_nil (result : List (List Char)) : readLoop [] result = result := by
  rw [readLoop]
  rfl

theorem readLoop_of_fgets (h : fgets bufSize fp = some (buf, fp')) (result : List (List Char)) :
    readLoop fp result =
      if (CString.ofBuffer buf).length > 0 then
        readLoop fp' (result ++ [(CString.ofBuffer buf).dropLast])
      else readLoop fp' result := by
  rw [readLoop]
  split
  next hnone => rw [h] at hnone; cases hnone
  next heq =>
    rw [h] at heq
    cases heq
    rfl

/-- What is read is added behind what is there. -/
theorem readLoop_append (before : List (List Char)) (fp : List Char) (result : List (List Char)) :
    readLoop fp (before ++ result) = before ++ readLoop fp result := by
  fun_induction readLoop fp result with
  | case1 fp result hfp =>
    rw [readLoop]
    split
    · rfl
    next heq => rw [hfp] at heq; cases heq
  | case2 fp result buf fp' hfp data hdata ih =>
    rw [readLoop_of_fgets hfp, if_pos hdata, List.append_assoc, ih]
  | case3 fp result buf fp' hfp data hdata ih =>
    rw [readLoop_of_fgets hfp, if_neg hdata, ih]

/-! ## The lines that were printed -/

/-- Lines as a command prints them. -/
def printed (lines : List (List Char)) : List Char := lines.flatMap (· ++ ['\n'])

/-- A line that the buffer takes with its end and the zero. -/
structure Fits (line : List Char) : Prop where
  newline_notMem : '\n' ∉ line
  zero_notMem : '\x00' ∉ line
  length_lt : line.length + 1 < bufSize

/-- The output is made of lines that fit, and ends with the last of them. -/
def LinesFit (out : List Char) : Prop := ∃ lines, (∀ line ∈ lines, Fits line) ∧ printed lines = out

@[simp] theorem printed_nil : printed [] = [] := rfl

@[simp] theorem printed_cons (line : List Char) (lines : List (List Char)) :
    printed (line :: lines) = line ++ '\n' :: printed lines := by
  simp [printed]

theorem readLoop_printed (hlines : ∀ line ∈ lines, Fits line) :
    readLoop (printed lines) result = result ++ lines := by
  induction lines generalizing result with
  | nil => rw [printed_nil, readLoop_nil, List.append_nil]
  | cons line lines ih =>
    obtain ⟨hline, hlines⟩ := List.forall_mem_cons.mp hlines
    have hbuf : CString.ofBuffer (line ++ ['\n']) = line ++ ['\n'] := by
      apply CString.ofBuffer_of_notMem
      simp [hline.zero_notMem]
    have hfgets : fgets bufSize (printed (line :: lines)) =
        some (line ++ ['\n'], printed lines) := by
      rw [printed_cons]
      exact fgets_append hline.newline_notMem hline.length_lt
    rw [readLoop_of_fgets hfgets, hbuf, if_pos (by simp), List.dropLast_concat, ih hlines,
      List.append_assoc, List.singleton_append]

theorem printed_append (lines lines' : List (List Char)) :
    printed (lines ++ lines') = printed lines ++ printed lines' := List.flatMap_append

theorem printed_readLoop (fp : List Char) (result : List (List Char)) :
    printed (readLoop fp result) = printed result ++ printed (readLoop fp []) := by
  rw [← printed_append, ← readLoop_append, List.append_nil]

/-- The lines that are given have no more characters than the output. -/
theorem length_printed_readLoop_le (fp : List Char) (result : List (List Char)) :
    (printed (readLoop fp result)).length ≤ (printed result).length + fp.length := by
  fun_induction readLoop fp result with
  | case1 => exact Nat.le_add_right _ _
  | case2 fp result buf fp' hfp data hdata ih =>
    obtain ⟨rfl, -⟩ := fgets_spec (by decide) hfp
    have hle : data.length ≤ buf.length := (List.takeWhile_prefix _).length_le
    simp only [printed_append, printed_cons, printed_nil, List.length_append, List.length_cons,
      List.length_nil, List.length_dropLast] at ih ⊢
    omega
  | case3 fp result buf fp' hfp data hdata ih =>
    obtain ⟨rfl, -⟩ := fgets_spec (by decide) hfp
    rw [List.length_append]
    omega

/-- A buffer that is given back as it was holds a line that fits. -/
theorem fits_of_fgets (h : fgets bufSize fp = some (buf, fp'))
    (hbuf : (CString.ofBuffer buf).dropLast ++ ['\n'] = buf) :
    Fits (CString.ofBuffer buf).dropLast := by
  obtain ⟨-, -, hlength, hnewline, -⟩ := fgets_spec (by decide) h
  refine ⟨?_, fun hzero => ?_, ?_⟩
  · rw [← hbuf, List.dropLast_concat] at hnewline
    exact hnewline
  · exact CString.zero_notMem_ofBuffer buf ((List.dropLast_subset _) hzero)
  · rw [← hbuf, List.length_append] at hlength
    exact hlength

theorem linesFit_of_printed (h : printed (readLoop fp result) = printed result ++ fp) :
    LinesFit fp := by
  fun_induction readLoop fp result with
  | case1 fp result hfp =>
    obtain rfl : fp = [] := by simpa using h
    exact ⟨[], by simp, rfl⟩
  | case2 fp result buf fp' hfp data hdata ih =>
    obtain ⟨rfl, -⟩ := fgets_spec (by decide) hfp
    have hle := length_printed_readLoop_le fp' []
    have hdata_le : data.length ≤ buf.length := (List.takeWhile_prefix _).length_le
    rw [printed_readLoop, printed_append, List.append_assoc, List.append_cancel_left_eq] at h
    -- neither part can make up for what the other one loses
    have hlength := congrArg List.length h
    obtain ⟨hbuf, hrest⟩ := List.append_inj' h (by
      simp only [printed_cons, printed_nil, List.length_append, List.length_cons, List.length_nil,
        List.length_dropLast] at hlength hle ⊢
      omega)
    obtain ⟨lines, hlines, hprinted⟩ := ih (by rw [printed_readLoop, hrest])
    have hfits := fits_of_fgets hfp (by simpa using hbuf)
    refine ⟨data.dropLast :: lines, List.forall_mem_cons.mpr ⟨hfits, hlines⟩, ?_⟩
    rw [← List.singleton_append, printed_append, hbuf, hprinted]
  | case3 fp result buf fp' hfp data hdata ih =>
    obtain ⟨rfl, hbuf, -⟩ := fgets_spec (by decide) hfp
    have hle := length_printed_readLoop_le fp' result
    have hpos := List.length_pos_iff.mpr hbuf
    rw [h, List.length_append, List.length_append] at hle
    omega

theorem system_printed (hlines : ∀ line ∈ lines, Fits line) :
    system (some (printed lines)) result = (0, result ++ lines) :=
  congrArg (Prod.mk 0) (readLoop_printed hlines)

/-- `system` gives the lines that were printed, exactly if each of them fits the buffer, has no
zero, and the last one ends as the others do. -/
theorem system_printed_iff (out : List Char) (result : List (List Char)) :
    (∃ lines, system (some out) result = (0, result ++ lines) ∧ printed lines = out) ↔
      LinesFit out := by
  constructor
  · rintro ⟨lines, hsystem, rfl⟩
    have hloop : readLoop (printed lines) result = result ++ lines := congrArg Prod.snd hsystem
    have hprinted : printed (readLoop (printed lines) result) =
        printed result ++ printed lines := by
      rw [hloop, printed_append]
    exact linesFit_of_printed hprinted
  · rintro ⟨lines, hlines, rfl⟩
    exact ⟨lines, system_printed hlines, rfl⟩

/-! ## Asking etcd -/

/-- The lines of a command for etcd, `none` where `system` fails. -/
def etcdLines (popen : Option (List Char)) : Option (List String) :=
  let (ret, result) := system popen []
  if 0 ≠ ret then none else some (result.map String.ofList)

/-- An entry of etcd: a key, and a value that ends with a host and its port. -/
structure EtcdEntry where
  key : List Char
  front : List Char
  host : List Char
  port : List Char
  deriving DecidableEq, Repr

namespace EtcdEntry

/-- The value in etcd. -/
def value (e : EtcdEntry) : List Char := e.front ++ '/' :: (e.host ++ ':' :: e.port)

/-- An entry whose value can be read, and that `system` can read. -/
structure Readable (e : EtcdEntry) : Prop where
  slash_notMem_host : '/' ∉ e.host
  colon_notMem_host : ':' ∉ e.host
  slash_notMem_port : '/' ∉ e.port
  fits_key : Fits e.key
  fits_value : Fits e.value

/-- What `etcdctl get --prefix` prints: the key of an entry, and then its value. -/
def printedEntries (entries : List EtcdEntry) : List Char :=
  printed (entries.flatMap fun e => [e.key, e.value])

/-- The host and the port. -/
def address (e : EtcdEntry) : Host := (String.ofList e.host, String.ofList e.port)

variable {e : EtcdEntry} {entries : List EtcdEntry}

theorem Readable.hostOf_value (h : e.Readable) :
    hostOf (String.ofList e.value) = some e.address := by
  have hslash : '/' ∉ e.host ++ ':' :: e.port := by
    simp [h.slash_notMem_host, h.slash_notMem_port]
  have htail : (e.value.reverse.takeWhile (· ≠ '/')).reverse = e.host ++ ':' :: e.port := by
    have hreverse : e.value.reverse =
        (e.host ++ ':' :: e.port).reverse ++ '/' :: e.front.reverse := by simp [value]
    rw [hreverse, Cut.takeWhile_ne_append (List.mem_reverse.not.mpr hslash), List.reverse_reverse]
  rw [hostOf, String.toList_ofList, htail]
  have hcolon : ':' ∈ e.host ++ ':' :: e.port :=
    List.mem_append_right _ List.mem_cons_self
  rw [if_pos hcolon, Cut.takeWhile_ne_append h.colon_notMem_host,
    Cut.dropWhile_ne_append h.colon_notMem_host]
  rfl

/-- The values are every other line. -/
theorem etcdValues_entries (entries : List EtcdEntry) :
    etcdValues ((entries.flatMap fun e => [e.key, e.value]).map String.ofList) =
      entries.map fun e => String.ofList e.value := by
  induction entries with
  | nil => rfl
  | cons e entries ih => exact congrArg (String.ofList e.value :: ·) ih

end EtcdEntry

theorem etcdLines_printed (hlines : ∀ line ∈ lines, Fits line) :
    etcdLines (some (printed lines)) = some (lines.map String.ofList) := by
  rw [etcdLines, system_printed hlines]
  rfl

/-- `get_master_host_from_etcd` gives the hosts in the values that etcd has, in their order. -/
theorem masterHosts_of_entries {entries : List EtcdEntry} (hentries : entries ≠ [])
    (hreadable : ∀ e ∈ entries, e.Readable) :
    getMasterHostFromEtcd (etcdLines (some (EtcdEntry.printedEntries entries))) =
      some (entries.map EtcdEntry.address) := by
  have hlines : ∀ line ∈ entries.flatMap fun e => [e.key, e.value], Fits line := by
    intro line hline
    obtain ⟨e, he, hline⟩ := List.mem_flatMap.mp hline
    rcases List.mem_pair.mp hline with rfl | rfl
    · exact (hreadable e he).fits_key
    · exact (hreadable e he).fits_value
  have hlength : ¬ ((entries.flatMap fun e => [e.key, e.value]).map String.ofList).length < 2 := by
    obtain ⟨e, entries, rfl⟩ := List.exists_cons_of_ne_nil hentries
    simp
  have hhosts : (entries.map fun e => String.ofList e.value).filterMap hostOf =
      entries.map EtcdEntry.address := by
    rw [List.filterMap_map, ← List.filterMap_eq_map]
    exact List.filterMap_congr fun e he => (hreadable e he).hostOf_value
  rw [EtcdEntry.printedEntries, etcdLines_printed hlines, getMasterHostFromEtcd,
    if_neg hlength, EtcdEntry.etcdValues_entries, hhosts]

theorem masterHosts_of_entries_two :
    getMasterHostFromEtcd (etcdLines (some (EtcdEntry.printedEntries
      [⟨['a'], ['s', ':', '/'], ['h'], ['1']⟩, ⟨['b'], [], ['g'], ['2', ':', '3']⟩]))) =
      some [("h", "1"), ("g", "2:3")] :=
  masterHosts_of_entries (by decide) (List.forall_mem_cons.mpr
    ⟨⟨by decide, by decide, by decide, ⟨by decide, by decide, by decide⟩,
      ⟨by decide, by decide, by decide⟩⟩,
    List.forall_mem_singleton.mpr
    ⟨by decide, by decide, by decide, ⟨by decide, by decide, by decide⟩,
      ⟨by decide, by decide, by decide⟩⟩⟩)

/-- `set_key_to_etcd`, given what `etcdctl` prints. -/
def setKeyToEtcd (popen : Option (List Char)) : Bool :=
  match etcdLines popen with
  | none => false
  | some result => decide (result.head? = some "OK")

/-- What `system` gives first, where no zero is printed. -/
theorem head?_readLoop (h : fgets bufSize fp = some (buf, fp')) (hzero : '\x00' ∉ fp) :
    (readLoop fp []).head? = some buf.dropLast := by
  obtain ⟨rfl, hne, -⟩ := fgets_spec (by decide) h
  have hbuf := CString.ofBuffer_of_notMem fun h => hzero (List.mem_append_left fp' h)
  have happend := readLoop_append [buf.dropLast] fp' []
  rw [List.append_nil] at happend
  rw [readLoop_of_fgets h, hbuf, if_pos (List.length_pos_iff.mpr hne), List.nil_append, happend]
  rfl

/-- A piece that ends as `fgets` ends is `OK` and one more character, exactly if the text begins
with these three and the third ends the line or the text. -/
theorem eq_ok_iff {front rest : List Char} {c : Char} (hfront : '\n' ∉ front)
    (hstop : c = '\n' ∨ front.length + 1 = bufSize - 1 ∨ rest = []) :
    front = ['O', 'K'] ↔ ∃ d rest', front ++ c :: rest = 'O' :: 'K' :: d :: rest' ∧
      (d = '\n' ∨ rest' = []) := by
  constructor
  · rintro rfl
    refine ⟨c, rest, rfl, ?_⟩
    rcases hstop with hc | hfull | hrest
    · exact .inl hc
    · cases hfull
    · exact .inr hrest
  · rintro ⟨d, rest', htext, hend⟩
    match front, hfront, hstop, htext with
    | [], _, hstop, htext =>
      cases htext
      simp [bufSize] at hstop
    | [_], _, hstop, htext =>
      cases htext
      simp [bufSize] at hstop
    | [_, _], _, _, htext =>
      cases htext
      rfl
    | _ :: _ :: _ :: front, hfront, _, htext =>
      -- the third character stands in the line, and others follow it
      cases htext
      rcases hend with rfl | hrest
      · simp at hfront
      · simp at hrest

/-- An answer counts as `OK` if that is its first line, or if it is one more character after
`OK` and nothing else. -/
theorem setKeyToEtcd_iff {out : List Char} (hzero : '\x00' ∉ out) :
    setKeyToEtcd (some out) = true ↔
      ∃ c rest, out = 'O' :: 'K' :: c :: rest ∧ (c = '\n' ∨ rest = []) := by
  have hinj : Function.Injective String.ofList := fun _ _ => String.ofList_injective
  have hhead : setKeyToEtcd (some out) = true ↔ (readLoop out []).head? = some ['O', 'K'] := by
    show decide (((readLoop out []).map String.ofList).head? = some "OK") = true ↔ _
    rw [decide_eq_true_iff, List.head?_map, show "OK" = String.ofList ['O', 'K'] from rfl,
      ← Option.map_some, (Option.map_injective hinj).eq_iff]
  rw [hhead]
  rcases hfgets : fgets bufSize out with _ | ⟨buf, fp'⟩
  · obtain rfl : out = [] := by
      cases out with
      | nil => rfl
      | cons c out => cases hfgets
    simp [readLoop_nil]
  · rw [head?_readLoop hfgets hzero, Option.some_inj]
    obtain ⟨rfl, hne, -, hnewline, hstop⟩ := fgets_spec (by decide) hfgets
    obtain ⟨front, c, rfl⟩ := (List.eq_nil_or_concat' buf).resolve_left hne
    rw [List.dropLast_concat] at hnewline ⊢
    rw [List.getLast?_concat, Option.some_inj, List.length_append] at hstop
    rw [List.append_assoc, List.singleton_append]
    exact eq_ok_iff hnewline hstop

theorem setKeyToEtcd_iff_ok : setKeyToEtcd (some ['O', 'K', '\n']) = true :=
  (setKeyToEtcd_iff (by decide)).mpr ⟨'\n', [], rfl, .inl rfl⟩

end Util

end SampleTools
