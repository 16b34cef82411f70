import SampleTools.Library.StdString

/-!
# Parsing a URL

`ParseUrl` takes what is between the last `/` and the last `:` for the host and what is behind it
for the port. What it asks `substr` for never begins behind the end, so that nothing is thrown and
every URL that is not empty is parsed.

## Main definitions

* `Util.parseUrl`: the function
* `Util.UrlForm`: `[scheme://]host:port`
* `Util.ParsesUrl`: a URL is parsed exactly if it has this form, into its parts

## Main results

* `Util.parseUrl_fst`: what is parsed
* `Util.UrlForm.parseUrl_eq`: the parts of a URL that has the form
* `Util.parsesUrl_iff`: when that is right
-/

namespace SampleTools

namespace Util

open StdString

/-- The parameters that are assigned. -/
structure UrlParts where
  isSsl : Bool
  host : StdString
  port : StdString
  deriving DecidableEq

/-- `ssl://`. -/
def sslMark : List Char := ['s', 's', 'l', ':', '/', '/']

/-- `ParseUrl`, with the parameters before and after. -/
def parseUrl (url : StdString) (out : UrlParts) : Bool × UrlParts :=
  if url.chars.isEmpty then (false, out)
  else
    let out := { out with isSsl := url.find sslMark ≠ npos }
    let pos := url.findLastOf ['/']
    let pos2 := url.findLastOf [':']
    match url.substr (sizeAdd pos 1) (sizeSub (sizeSub pos2 pos) 1) with
    | none => (false, out)
    | some host =>
      let out := { out with host := host }
      match url.substr (sizeAdd pos2 1) npos with
      | none => (false, out)
      | some port => (true, { out with port := port })

/-! ## The form of a URL -/

/-- `[scheme://]host:port`. -/
structure UrlForm (scheme : Option (List Char)) (host port url : List Char) : Prop where
  eq : url = (scheme.elim [] fun s => s ++ [':', '/', '/']) ++ host ++ ':' :: port
  scheme : ∀ s ∈ scheme, '/' ∉ s
  host : '/' ∉ host
  port_ne_nil : port ≠ []
  port_colon : ':' ∉ port
  port_slash : '/' ∉ port

/-- The URL is parsed exactly if it has the form, and then into its parts. -/
def ParsesUrl (url : StdString) : Prop :=
  ∀ out, ((parseUrl url out).1 = true ↔ ∃ scheme host port, UrlForm scheme host port url.chars) ∧
    ((parseUrl url out).1 = true → ∃ scheme,
      UrlForm scheme (parseUrl url out).2.host.chars (parseUrl url out).2.port.chars url.chars ∧
        ((parseUrl url out).2.isSsl = true ↔ scheme = some ['s', 's', 'l']))

section Form

variable {url : StdString} {scheme : Option (List Char)} {host port : List Char}

/-- Every URL that is not empty is parsed. -/
theorem parseUrl_of_ne_nil (h : url.chars ≠ []) (out : UrlParts) : parseUrl url out = (true,
    { isSsl := url.find sslMark ≠ npos
      host := url.part (sizeAdd (url.findLastOf ['/']) 1)
        (sizeSub (sizeSub (url.findLastOf [':']) (url.findLastOf ['/'])) 1)
      port := url.part (sizeAdd (url.findLastOf [':']) 1) npos }) := by
  rw [parseUrl, if_neg (by simpa using h)]
  dsimp only
  rw [substr_findLastOf]
  dsimp only
  rw [substr_findLastOf]

theorem parseUrl_fst (url : StdString) (out : UrlParts) :
    (parseUrl url out).1 = true ↔ url.chars ≠ [] := by
  by_cases h : url.chars = []
  · rw [parseUrl, if_pos (by simpa using h)]
    exact iff_of_false nofun (not_not.mpr h)
  · rw [parseUrl_of_ne_nil h]
    exact iff_of_true rfl h

theorem append_cons_left_inj {c : Char} {l l' r r' : List Char} (hl : c ∉ l) (hl' : c ∉ l')
    (h : l ++ c :: r = l' ++ c :: r') : l = l' := by
  induction l generalizing l' with
  | nil =>
    cases l' with
    | nil => rfl
    | cons d l' =>
      obtain ⟨rfl, -⟩ := List.cons.inj h
      exact absurd List.mem_cons_self hl'
  | cons d l ih =>
    cases l' with
    | nil =>
      obtain ⟨rfl, -⟩ := List.cons.inj h
      exact absurd List.mem_cons_self hl
    | cons d' l' =>
      obtain ⟨rfl, htail⟩ := List.cons.inj h
      rw [ih (fun hmem => hl (List.mem_cons_of_mem _ hmem))
        (fun hmem => hl' (List.mem_cons_of_mem _ hmem)) htail]

/-- The mark is found exactly if the scheme ends with it. -/
theorem UrlForm.sslMark_infix_iff (h : UrlForm scheme host port url.chars) :
    sslMark <:+: url.chars ↔ ∃ s ∈ scheme, ['s', 's', 'l'] <:+ s := by
  have heq := h.eq
  have hhost := List.count_eq_zero.mpr h.host
  have hport := List.count_eq_zero.mpr h.port_slash
  constructor
  · rintro ⟨a, b, hmark⟩
    -- the only two slashes are those behind the scheme
    have hcount := congrArg (List.count '/') (hmark.trans heq)
    cases scheme with
    | none => simp [sslMark, hhost, hport] at hcount
    | some s =>
      have hs := h.scheme s rfl
      have ha : '/' ∉ a := by
        simp only [sslMark, Option.elim_some, List.count_append, List.count_cons, hhost, hport,
          List.count_eq_zero.mpr hs] at hcount
        apply List.count_eq_zero.mp
        simp at hcount
        omega
      have hbefore : a ++ ['s', 's', 'l', ':'] = s ++ [':'] := by
        have hsame : (a ++ ['s', 's', 'l', ':']) ++ '/' :: '/' :: b =
            (s ++ [':']) ++ '/' :: '/' :: (host ++ ':' :: port) := by
          simpa [sslMark] using hmark.trans heq
        exact append_cons_left_inj (by simpa using ha) (by simpa using hs) hsame
      have hends : (a ++ ['s', 's', 'l']) ++ [':'] = s ++ [':'] := by
        rw [← hbefore, List.append_assoc]
        rfl
      exact ⟨s, rfl, a, List.append_cancel_right hends⟩
  · rintro ⟨s, hs, a, rfl⟩
    obtain rfl := Option.mem_def.mp hs
    exact ⟨a, host ++ ':' :: port, by simp [heq, sslMark]⟩

/-- The places of the last `/` and the last `:`, and what is computed with them. -/
theorem UrlForm.indices (h : UrlForm scheme host port url.chars) {pre : List Char}
    (hpre : pre = scheme.elim [] fun s => s ++ [':', '/', '/']) :
    sizeAdd (url.findLastOf ['/']) 1 = pre.length ∧
      url.findLastOf [':'] = (pre ++ host).length ∧
      sizeSub (sizeSub (url.findLastOf [':']) (url.findLastOf ['/'])) 1 = host.length := by
  have hsize := url.size_lt
  have heq := h.eq
  rw [← hpre] at heq
  have hcolon : url.findLastOf [':'] = (pre ++ host).length :=
    findLastOf_of_append heq List.mem_cons_self fun x hx hmem =>
      h.port_colon (List.mem_singleton.mp hmem ▸ hx)
  have hslash : ∀ x ∈ host ++ ':' :: port, x ∉ ['/'] := by
    intro x hx hmem
    obtain rfl := List.mem_singleton.mp hmem
    rcases List.mem_append.mp hx with hx | hx
    · exact h.host hx
    · exact h.port_slash (List.mem_of_ne_of_mem (by decide) hx)
  have hlength := congrArg List.length heq
  simp only [List.length_append, List.length_cons] at hlength hcolon
  cases scheme with
  | none =>
    -- without a `/` the index is `npos`, and one more is 0
    obtain rfl : pre = [] := hpre
    have hnone : url.findLastOf ['/'] = npos := by
      apply findLastOf_of_none
      intro x hx
      rw [heq] at hx
      exact hslash x hx
    rw [hnone, hcolon, sizeAdd_npos]
    refine ⟨rfl, by simp, ?_⟩
    unfold sizeSub npos
    simp only [List.length_nil]
    omega
  | some s =>
    obtain rfl : pre = s ++ [':', '/', '/'] := hpre
    have hlast : url.findLastOf ['/'] = (s ++ [':', '/']).length :=
      findLastOf_of_append (by simp [heq]) List.mem_cons_self hslash
    simp only [List.length_append, List.length_cons, List.length_nil] at hlength hcolon hlast ⊢
    rw [hlast, hcolon]
    unfold sizeAdd sizeSub
    omega

/-- The parts of a URL that has the form. -/
theorem UrlForm.parseUrl_eq (h : UrlForm scheme host port url.chars) (out : UrlParts) :
    (parseUrl url out).1 = true ∧ (parseUrl url out).2.host.chars = host ∧
      (parseUrl url out).2.port.chars = port ∧
      ((parseUrl url out).2.isSsl = true ↔ ∃ s ∈ scheme, ['s', 's', 'l'] <:+ s) := by
  have hne : url.chars ≠ [] := by
    rw [h.eq]
    simp
  obtain ⟨pre, hpre⟩ : ∃ pre, pre = scheme.elim [] fun s => s ++ [':', '/', '/'] := ⟨_, rfl⟩
  obtain ⟨hpos, hpos2, hcount⟩ := h.indices hpre
  have hsize := url.size_lt
  have heq := h.eq
  rw [← hpre] at heq
  rw [parseUrl_of_ne_nil hne]
  refine ⟨rfl, ?_, ?_, ?_⟩
  · exact (substr_of_append heq hpos (.inl hcount)).2
  · have hlast : url.chars = pre ++ host ++ [':'] ++ port ++ [] := by
      rw [heq]
      simp
    have hlength := congrArg List.length heq
    simp only [List.length_append, List.length_cons] at hlength hpos2
    refine (substr_of_append hlast ?_ (.inr ⟨rfl, ?_⟩)).2
    · rw [hpos2, sizeAdd_eq (by omega)]
      simp only [List.length_append, List.length_cons, List.length_nil]
    · unfold npos
      omega
  · rw [← h.sslMark_infix_iff, ← find_ne_npos_iff]
    exact decide_eq_true_iff

end Form

/-- **A URL is parsed right exactly if it is empty, or has the form with a scheme that is `ssl` or
does not end with it.** For every string: it is parsed exactly if it has the form
`[scheme://]host:port`, the parts are those of the form, and it is marked as one of `ssl` exactly if
that is its scheme. -/
theorem parsesUrl_iff (url : StdString) : ParsesUrl url ↔ url.chars = [] ∨
    ∃ scheme host port, UrlForm scheme host port url.chars ∧
      ∀ s ∈ scheme, ['s', 's', 'l'] <:+ s → s = ['s', 's', 'l'] := by
  constructor
  · intro h
    by_cases hempty : url.chars = []
    · exact .inl hempty
    · right
      obtain ⟨-, hparts⟩ := h ⟨false, url, url⟩
      obtain ⟨scheme, hform, hssl⟩ := hparts ((parseUrl_fst url _).mpr hempty)
      refine ⟨scheme, _, _, hform, fun s hs hends => ?_⟩
      -- a scheme that ends with `ssl` has set the mark, so it is `ssl`
      obtain ⟨-, -, -, hmark⟩ := hform.parseUrl_eq ⟨false, url, url⟩
      have hscheme := hssl.mp (hmark.mpr ⟨s, hs, hends⟩)
      rw [hscheme] at hs
      exact (Option.some.inj hs).symm
  · intro h out
    rcases h with hempty | ⟨scheme, host, port, hform, hends⟩
    · have hfalse : ¬ (parseUrl url out).1 = true := fun h => (parseUrl_fst url out).mp h hempty
      refine ⟨iff_of_false hfalse ?_, fun h => absurd h hfalse⟩
      rintro ⟨scheme, host, port, hform⟩
      have heq := hform.eq
      rw [hempty] at heq
      simp at heq
    · obtain ⟨hparsed, hhost, hport, hmark⟩ := hform.parseUrl_eq out
      refine ⟨iff_of_true hparsed ⟨scheme, host, port, hform⟩, fun _ => ⟨scheme, ?_, ?_⟩⟩
      · rwa [hhost, hport]
      · rw [hmark]
        constructor
        · rintro ⟨s, hs, hsuffix⟩
          obtain rfl := Option.mem_def.mp hs
          rw [hends s rfl hsuffix]
        · intro hscheme
          exact ⟨_, hscheme, List.suffix_rfl⟩

/-- `abc`, which has no `:`. -/
def noPort : StdString := ⟨['a', 'b', 'c'], by decide⟩

/-- `xssl://h:1`. -/
def otherScheme : StdString := ⟨['x', 's', 's', 'l', ':', '/', '/', 'h', ':', '1'], by decide⟩

/-- What has no port is parsed, the whole of it as host and as port, and a scheme that ends with
`ssl` is taken for it. -/
theorem parsesUrl_fails :
    parseUrl noPort ⟨true, otherScheme, otherScheme⟩ = (true, ⟨false, noPort, noPort⟩) ∧
      ¬ ParsesUrl noPort ∧ UrlForm (some ['x', 's', 's', 'l']) ['h'] ['1'] otherScheme.chars ∧
      (parseUrl otherScheme ⟨false, noPort, noPort⟩).2.isSsl = true ∧ ¬ ParsesUrl otherScheme := by
  have hform : UrlForm (some ['x', 's', 's', 'l']) ['h'] ['1'] otherScheme.chars :=
    ⟨rfl, by decide, by decide, by decide, by decide, by decide⟩
  have hmark : (parseUrl otherScheme ⟨false, noPort, noPort⟩).2.isSsl = true := by decide
  refine ⟨by decide, fun h => ?_, hform, hmark, fun h => ?_⟩
  · have hparsed : (parseUrl noPort ⟨false, noPort, noPort⟩).1 = true := by decide
    obtain ⟨scheme, host, port, hform⟩ := (h ⟨false, noPort, noPort⟩).1.mp hparsed
    have hcolon : ':' ∈ noPort.chars := by
      rw [hform.eq]
      simp
    revert hcolon
    decide
  · obtain ⟨hiff, hparts⟩ := h ⟨false, noPort, noPort⟩
    obtain ⟨scheme, hother, hssl⟩ := hparts (hiff.mpr ⟨_, _, _, hform⟩)
    have hscheme := hssl.mp hmark
    subst hscheme
    -- the string does not begin with `ssl`
    exact absurd hother.eq (by decide)

end Util

end SampleTools
