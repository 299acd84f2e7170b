import StreamArena.Library.AsciiText

/-! What the URL standard promises of a parser: a parsed URL serializes to printable
ASCII, and its serialization parses to it again. -/
namespace Urls
open AsciiText

def isPrintable (c : Char) : Bool := 0x20 ≤ c.toNat && c.toNat ≤ 0x7E

theorem not_isWhitespace_of_isPrintable {c : Char} (h : isPrintable c = true)
    (hspace : c ≠ ' ') : isWhitespace c = false := by
  have hne : c.toNat ≠ 0x20 := by
    intro heq
    exact hspace (Char.toNat_inj.mp heq)
  simp only [isPrintable, Bool.and_eq_true, decide_eq_true_eq] at h
  simp only [isWhitespace, Bool.or_eq_false_iff, Bool.and_eq_false_iff, decide_eq_false_iff_not,
    beq_eq_false_iff_ne]
  omega

/-- Four groups of one to three digits. -/
def isDottedQuad (host : Text) : Bool :=
  let groups := host.splitOn '.'
  groups.length == 4 &&
    groups.all fun group => 1 ≤ group.length && group.length ≤ 3 && group.all Char.isDigit

/-- Four decimal bytes without leading zeros. -/
def isIpv4Addr (host : Text) : Bool :=
  let groups := host.splitOn '.'
  groups.length == 4 && groups.all fun group => (List.range 256).any fun n => Nat.toDigits 10 n == group

def trimEndDots (host : Text) : Text := host.rdropWhile (· == '.')

structure Library where
  Url : Type
  parse : Text → Option Url
  asStr : Url → Text
  scheme : Url → Text
  hostStr : Url → Option Text
  path : Url → Text
  join : Url → Text → Option Url
  parse_asStr : ∀ url, parse (asStr url) = some url
  asStr_ne_nil : ∀ url, asStr url ≠ []
  asStr_printable : ∀ url, ∀ c ∈ asStr url, isPrintable c = true
  asStr_trimmed : ∀ url, trim (asStr url) = asStr url
  hostStr_printable : ∀ url host, hostStr url = some host →
    ∀ c ∈ host, isPrintable c = true ∧ c ≠ ' '
  /-- A web host of four numbers is an address and is written as one. -/
  hostStr_dottedQuad : ∀ url host, scheme url = "https".toList → hostStr url = some host →
    isDottedQuad (toAsciiLowercase (trimEndDots host)) = true →
      isIpv4Addr (toAsciiLowercase (trimEndDots host)) = true

variable (urls : Library)

theorem Library.asStr_injective {url url' : urls.Url} (h : urls.asStr url = urls.asStr url') :
    url = url' := by
  have hparse := urls.parse_asStr url
  rw [h, urls.parse_asStr] at hparse
  exact (Option.some.inj hparse).symm

instance : DecidableEq urls.Url := fun url url' =>
  decidable_of_iff (urls.asStr url = urls.asStr url')
    ⟨fun h => urls.asStr_injective h, fun h => h ▸ rfl⟩

theorem toLower_beq_dot (c : Char) : (c.toLower == '.') = (c == '.') := by
  by_cases h : c.isUpper = true
  · have hb := isUpper_iff.mp h
    have hn := toNat_toLower_of_isUpper h
    have hdot : ∀ d : Char, d.toNat ≠ 46 → (d == '.') = false := fun d hd =>
      beq_false_of_ne fun he => hd (by rw [he]; rfl)
    rw [hdot c (by omega), hdot c.toLower (by omega)]
  · rw [toLower_of_not_isUpper h]

theorem trimEndDots_toAsciiLowercase (s : Text) :
    trimEndDots (toAsciiLowercase s) = toAsciiLowercase (trimEndDots s) := by
  have hdot : (· == '.') ∘ Char.toLower = (· == '.') := funext toLower_beq_dot
  simp only [trimEndDots, toAsciiLowercase, List.rdropWhile, ← List.map_reverse, List.dropWhile_map,
    hdot]

/-- Scheme, host and path of a web address without port, query and fragment. -/
def splitPlain (text : Text) : Option (Text × Text × Text) :=
  (splitOnce "://".toList text).map fun parts =>
    (parts.1, parts.2.takeWhile (· != '/'), parts.2.dropWhile (· != '/'))

def isHostChar (c : Char) : Bool := c.isLower || c.isDigit || c == '.' || c == '-'

def isPathChar (c : Char) : Bool :=
  c.isAlphanum || c == '/' || c == '.' || c == '-' || c == '_' || c == '|' || c == ':'

/-- The addresses every parser of the standard leaves as they are. -/
def isPlain (text : Text) : Bool :=
  text.all isPrintable && trim text == text &&
    match splitPlain text with
    | some (scheme, host, path) =>
      (scheme == "https".toList || scheme == "http".toList) && !host.isEmpty &&
        host.all isHostChar &&
        (!isDottedQuad (toAsciiLowercase (trimEndDots host)) ||
          isIpv4Addr (toAsciiLowercase (trimEndDots host))) &&
        path.head? == some '/' && path.all isPathChar
    | none => false

def parsePlain (text : Text) : Option {text : Text // isPlain text = true} :=
  if h : isPlain text = true then some ⟨text, h⟩ else none

def plainPart (part : Text × Text × Text → Text) (url : {text : Text // isPlain text = true}) : Text :=
  ((splitPlain url.1).map part).getD []

/-- A reference against the directory of a plain address, its host, or nothing. -/
def joinPlain (base : {text : Text // isPlain text = true}) (reference : Text) :
    Option {text : Text // isPlain text = true} :=
  let origin := plainPart (fun parts => parts.1 ++ "://".toList ++ parts.2.1) base
  let directory := (plainPart (fun parts => parts.2.2) base).rdropWhile (· != '/')
  (parsePlain reference).or
    (if reference.head? == some '/' then parsePlain (origin ++ reference)
    else parsePlain (origin ++ directory ++ reference))

theorem isPlain_host {text scheme host path : Text} (h : isPlain text = true)
    (hsplit : splitPlain text = some (scheme, host, path)) :
    host.all isHostChar = true ∧ (isDottedQuad (toAsciiLowercase (trimEndDots host)) = true →
      isIpv4Addr (toAsciiLowercase (trimEndDots host)) = true) := by
  simp only [isPlain, hsplit, Bool.and_eq_true, Bool.or_eq_true, Bool.not_eq_true'] at h
  refine ⟨h.2.1.1.1.2, fun hquad => ?_⟩
  cases h.2.1.1.2 with
  | inl hnot => rw [hquad] at hnot; cases hnot
  | inr haddr => exact haddr

theorem isHostChar_printable {c : Char} (h : isHostChar c = true) :
    isPrintable c = true ∧ c ≠ ' ' := by
  constructor
  · simp only [isHostChar, Bool.or_eq_true, beq_iff_eq, Char.isLower, Char.isDigit, ge_iff_le,
      Bool.and_eq_true, decide_eq_true_eq, UInt32.le_iff_toNat_le] at h
    simp only [isPrintable, Bool.and_eq_true, decide_eq_true_eq]
    rcases h with ((h | h) | rfl) | rfl
    · exact ⟨le_trans (by decide) h.1, le_trans h.2 (by decide)⟩
    · exact ⟨le_trans (by decide) h.1, le_trans h.2 (by decide)⟩
    · decide
    · decide
  · rintro rfl
    exact absurd h (by decide)

/-- The standard on plain addresses. -/
def plain : Library where
  Url := {text : Text // isPlain text = true}
  parse := parsePlain
  asStr url := url.1
  scheme := plainPart fun parts => parts.1
  hostStr url := (splitPlain url.1).map fun parts => parts.2.1
  path := plainPart fun parts => parts.2.2
  join := joinPlain
  parse_asStr url := dif_pos url.2
  asStr_ne_nil url := by
    intro hnil
    have h := url.2
    rw [hnil] at h
    exact absurd h (by decide)
  asStr_printable url := by
    have h := url.2
    simp only [isPlain, Bool.and_eq_true] at h
    exact List.all_eq_true.mp h.1.1
  asStr_trimmed url := by
    have h := url.2
    simp only [isPlain, Bool.and_eq_true, beq_iff_eq] at h
    exact h.1.2
  hostStr_printable url host hhost c hc := by
    obtain ⟨parts, hsplit, rfl⟩ := Option.map_eq_some_iff.mp hhost
    exact isHostChar_printable (List.all_eq_true.mp (isPlain_host url.2 hsplit).1 c hc)
  hostStr_dottedQuad url host _ hhost hquad := by
    obtain ⟨parts, hsplit, rfl⟩ := Option.map_eq_some_iff.mp hhost
    exact (isPlain_host url.2 hsplit).2 hquad

end Urls
