import StreamArena.Library.Regexes
import StreamArena.Library.Separated
import StreamArena.Playback.Sessions

/-! Release names (src/resolver.rs, src/resolver/scoring.rs): which title or episode a
filename says that it is. -/
namespace StreamArena.Playback
open AsciiText Regexes Regex

/-- Unicode tables: lower case and the characters of words. -/
structure Unicode where
  toLowercase : Lowercase
  isWord : Char → Bool

def isLowerAlnum (c : Char) : Bool := c.isDigit || c.isLower

/-! The expressions. -/

def digit : Regex := .char Char.isDigit

def spaces : Regex := .star (.char isWhitespace)

def zeros : Regex := .star (.char (· == '0'))

def oneOrTwoDigits : Regex := .seq digit digit.opt

def upToThreeDigits : Regex := .seq digit (Regex.opt (.seq digit digit.opt))

def separator : Regex := Regex.opt (.char fun c => c == '-' || c == '_' || c == '.' || c == ' ')

def sequence (parts : List Regex) : Regex := parts.foldr .seq .empty

def filenameYearRe : Regex :=
  sequence [.boundary, .group (sequence [.alt (text "19".toList) (text "20".toList), digit, digit]), .boundary]

def hxhSeasonEpisodeRe : Regex :=
  sequence [.boundary, text ['s'], Regex.opt (.seq (text "eason".toList) spaces), zeros, .group oneOrTwoDigits,
    spaces, separator, text ['e'], Regex.opt (.seq (text "pisode".toList) spaces), zeros, .group upToThreeDigits,
    .boundary]

def xSeasonEpisodeRe : Regex :=
  sequence [.boundary, zeros, .group oneOrTwoDigits, text ['x'], zeros, .group upToThreeDigits, .boundary]

def episodeOnlyRe : Regex :=
  sequence [.boundary, .alt (text ['e']) (.alt (text "ep".toList) (text "episode".toList)), spaces, separator,
    zeros, .group upToThreeDigits, .boundary]

def resolution2160Re : Regex :=
  sequence [.boundary, .alt (text "2160p".toList) (.alt (text "4k".toList) (text "uhd".toList)), .boundary]

def resolution1080Re : Regex :=
  sequence [.boundary, .alt (text "1080p".toList) (sequence [text "full".toList, spaces, text "hd".toList]), .boundary]

def resolution720Re : Regex := sequence [.boundary, text "720p".toList, .boundary]

def resolution480Re : Regex :=
  sequence [.boundary, .alt (text "480p".toList) (text "sd".toList), .boundary]

section match_
variable (u : Unicode)

def normalizeTextForMatch (value : Text) : Text :=
  Separated.join ' ' (((u.toLowercase value).splitOnP fun c => !isLowerAlnum c).filter fun piece => !piece.isEmpty)

def titleMatchStopwords : List Text :=
  ["the".toList, "a".toList, "an".toList, "and".toList, "of".toList, "in".toList, "on".toList, "to".toList,
    "for".toList, "vs".toList, "v".toList, "movie".toList, "film".toList]

/-- The words of a normalized text. -/
def words (normalized : Text) : List Text :=
  (normalized.splitOn ' ').filter fun piece => !piece.isEmpty

def tokenizeTitleForMatch (title : Text) : List Text :=
  (words (normalizeTextForMatch u title)).filter fun token => 2 ≤ token.length && !titleMatchStopwords.contains token

def countMatchingTitleTokens (normalizedValue : Text) (titleTokens : List Text) : Nat :=
  (titleTokens.filter fun token => (words normalizedValue).contains token).length

/-- What the captured digits say. -/
def ordinal (digits : Text) : Nat := digits.foldl (fun n c => 10 * n + (c.toNat - '0'.toNat)) 0

def buildEpisodeSignature (seasonNumber episodeNumber : Nat) : Nat × Nat :=
  (max seasonNumber 1, max episodeNumber 1)

/-- Season and episode of each mark in the name; a mark without a season is of the season asked for. -/
def collectEpisodeSignatures (value : Text) (seasonHint : Nat) : List (Nat × Nat) :=
  let normalized := u.toLowercase value
  let both (groups : List Text) : Nat × Nat :=
    (ordinal (groups.getD 0 []), ordinal (groups.getD 1 []))
  let found := (hxhSeasonEpisodeRe.captures u.isWord normalized).map both ++
    (xSeasonEpisodeRe.captures u.isWord normalized).map both ++
    if 0 < seasonHint then
      (episodeOnlyRe.captures u.isWord normalized).map fun groups => (seasonHint, ordinal (groups.getD 0 []))
    else []
  found.filter fun (season, episode) => 1 ≤ season && season ≤ 99 && 1 ≤ episode && episode ≤ 999

/-- The words of the title and its year, if the name has one. -/
def titleLikelyMatches (normalizedFilename title year : Text) : Bool :=
  let titleTokens := tokenizeTitleForMatch u title
  if titleTokens.isEmpty then true
  else
    let expectedYear := trim year
    let years := (filenameYearRe.captures u.isWord normalizedFilename).map fun groups => groups.getD 0 []
    let hasExpectedYear := !expectedYear.isEmpty && years.contains expectedYear
    let hasConflictingYear := !expectedYear.isEmpty && !years.isEmpty && !hasExpectedYear
    let matched := countMatchingTitleTokens normalizedFilename titleTokens
    if min titleTokens.length 2 ≤ matched then
      expectedYear.isEmpty || hasExpectedYear || !hasConflictingYear
    else 1 ≤ matched && hasExpectedYear

def doesFilenameLikelyMatchMovie (filename movieTitle movieYear : Text) : Bool :=
  let normalizedFilename := normalizeTextForMatch u filename
  if normalizedFilename.isEmpty then true else titleLikelyMatches u normalizedFilename movieTitle movieYear

def doesFilenameLikelyMatchTvEpisode (filename showTitle showYear : Text) (seasonNumber episodeNumber : Nat) : Bool :=
  let normalizedFilename := normalizeTextForMatch u filename
  if normalizedFilename.isEmpty then true
  else
    let signatures := collectEpisodeSignatures u normalizedFilename seasonNumber
    if !signatures.isEmpty then signatures.contains (buildEpisodeSignature seasonNumber episodeNumber)
    else titleLikelyMatches u normalizedFilename showTitle showYear

def parseVerticalResolutionFromText (value : Text) : Nat :=
  let streamText := u.toLowercase value
  if resolution2160Re.isMatch u.isWord streamText then 2160
  else if resolution1080Re.isMatch u.isWord streamText then 1080
  else if resolution720Re.isMatch u.isWord streamText then 720
  else if resolution480Re.isMatch u.isWord streamText then 480
  else 0

end match_

end StreamArena.Playback
