import Mathlib
import StreamArena.Library.Decimal
import StreamArena.Library.JsonValue
import StreamArena.Library.Words

/-! The library of local files, and how it is normalized, read and written (src/src/library.rs). -/
namespace StreamArena.Catalogue
open AsciiText Decimal JsonValue

/-- Lower case of all scripts, and the text of a JSON value that is no string. -/
structure Libs where
  toLowercase : Text → Text
  toLowercase_ascii : ∀ text, (∀ c ∈ text, c.toNat < 128) → toLowercase text = toAsciiLowercase text
  toAsciiLowercase_toLowercase : ∀ text, toAsciiLowercase (toLowercase text) = toLowercase text
  render : Value → Text

structure MovieEntry where
  id : Text
  title : Text
  tmdbId : Text
  year : Text
  src : Text
  thumb : Text
  description : Text
  uploadedAt : Int64
  deriving DecidableEq

structure SeriesEpisodeEntry where
  title : Text
  description : Text
  thumb : Text
  src : Text
  contentKind : Text
  seasonNumber : Int64
  episodeNumber : Int64
  uploadedAt : Int64
  deriving DecidableEq

structure SeriesEntry where
  id : Text
  title : Text
  contentKind : Text
  tmdbId : Text
  year : Text
  preferredContainer : Text
  requiresLocalEpisodeSources : Bool
  episodes : List SeriesEpisodeEntry
  deriving DecidableEq

structure Library where
  movies : List MovieEntry
  series : List SeriesEntry
  deriving DecidableEq

def normalizeWhitespace (value : Text) : Text := trim (Words.normalizeWhitespace value)

def ifEmptyThen (value fallback : Text) : Text := if (trim value).isEmpty = true then fallback else value

def trimMatches (c : Char) (s : Text) : Text := (s.dropWhile (· == c)).rdropWhile (· == c)

/-- Letters and digits as they are, and one dash for each run of anything else. -/
def slugChars : Bool → Text → Text
  | _, [] => []
  | lastDash, ch :: rest =>
    if ch.isAlphanum = true then ch :: slugChars false rest
    else if lastDash = true then slugChars true rest
    else '-' :: slugChars true rest

def normalizeYear (value : Text) : Text :=
  let text := trim value
  if byteLength text ≠ 4 ∨ text.all Char.isDigit = false then []
  else if 1888 ≤ (parseDigits text).getD 0 ∧ (parseDigits text).getD 0 ≤ 2100 then text
  else []

def normalizeTmdbId (value : Text) : Text :=
  if (trim value).isEmpty = false ∧ (trim value).all Char.isDigit = true then trim value else []

def clampI64 (value low high : Int64) : Int64 := if value < low then low else if high < value then high else value

def normalizeUploadEpisodeOrdinal (value fallback : Int64) : Int64 :=
  if value ≤ 0 then fallback else clampI64 value 1 999

def valueI64 : Option Value → Option Int64
  | some (.string text) => (parseI64 text).map Int64.ofInt
  | some value => value.asI64.map Int64.ofInt
  | none => none

/-- The entries of an array; anything else has none. -/
def items : Option Value → List Value
  | some (.array entries) => entries
  | _ => []

def ordinalLe (a b : SeriesEpisodeEntry) : Bool :=
  decide (a.seasonNumber < b.seasonNumber) || (a.seasonNumber == b.seasonNumber && decide (a.episodeNumber ≤ b.episodeNumber))

def courseKind : Text := "course".toList
def seriesKind : Text := "series".toList
def defaultThumb : Text := "assets/images/thumbnail.jpg".toList

def fallbackPrefix (contentKind : Text) : Text := if contentKind = courseKind then "Lesson".toList else "Episode".toList

section
variable (libs : Libs) (now : Int64)

def slugify (value fallback : Text) : Text :=
  let trimmed := trimMatches '-' (slugChars false (libs.toLowercase (normalizeWhitespace value)))
  if trimmed.isEmpty = true then fallback else trimmed

def valueString : Option Value → Text
  | some (.string text) => text
  | some other => trimMatches '"' (libs.render other)
  | none => []

/-- A text field of an entry with its white space normalized. -/
def field (entry : Value) (name : String) : Text := normalizeWhitespace (valueString libs (entry.get name.toList))

def normalizeLocalMovieEntry (entry : Value) : Option MovieEntry := do
  let _ ← entry.asObject
  let title := field libs entry "title"
  let src := field libs entry "src"
  if title.isEmpty || src.isEmpty then none
  else some {
    id := ifEmptyThen (trim (field libs entry "id")) (slugify libs title "title".toList)
    title := title
    tmdbId := normalizeTmdbId (valueString libs (entry.get "tmdbId".toList))
    year := normalizeYear (valueString libs (entry.get "year".toList))
    src := src
    thumb := ifEmptyThen (field libs entry "thumb") defaultThumb
    description := field libs entry "description"
    uploadedAt := (valueI64 (entry.get "uploadedAt".toList)).getD now }

def isCourse (entry : Value) : Bool := libs.toLowercase (field libs entry "contentKind") == courseKind

def normalizeLocalSeriesEpisodeEntry (entry : Value) (fallbackIndex : Nat) (fallbackContentKind : Text) :
    Option SeriesEpisodeEntry := do
  let _ ← entry.asObject
  let src := field libs entry "src"
  if src.isEmpty then none
  else
    let contentKind := if isCourse libs entry = true then courseKind else fallbackContentKind
    let fallback := Int64.ofNat (fallbackIndex + 1)
    let episodeNumber := normalizeUploadEpisodeOrdinal ((valueI64 (entry.get "episodeNumber".toList)).getD fallback) fallback
    some {
      title := ifEmptyThen (field libs entry "title") (fallbackPrefix contentKind ++ ' ' :: decimalText episodeNumber.toInt)
      description := field libs entry "description"
      thumb := ifEmptyThen (field libs entry "thumb") defaultThumb
      src := src
      contentKind := contentKind
      seasonNumber := normalizeUploadEpisodeOrdinal ((valueI64 (entry.get "seasonNumber".toList)).getD 1) 1
      episodeNumber := episodeNumber
      uploadedAt := (valueI64 (entry.get "uploadedAt".toList)).getD now }

def seriesId (entry : Value) : Text :=
  slugify libs (normalizeWhitespace (ifEmptyThen (valueString libs (entry.get "id".toList)) (field libs entry "title"))) seriesKind

def seriesContentKind (entry : Value) (id title : Text) : Text :=
  if isCourse libs entry = true then courseKind
  else if contains (libs.toLowercase (id ++ ' ' :: title)) courseKind = true then courseKind
  else seriesKind

/-- The episodes of an array that are kept, each with its place in the array. -/
def keptEpisodes (entries : List Value) (contentKind : Text) : List SeriesEpisodeEntry :=
  entries.zipIdx.filterMap fun (item, index) => normalizeLocalSeriesEpisodeEntry libs now item index contentKind

def normalizeLocalSeriesEntry (entry : Value) : Option SeriesEntry := do
  let _ ← entry.asObject
  let title := field libs entry "title"
  let id := seriesId libs entry
  if id.isEmpty || title.isEmpty then none
  else
    let contentKind := seriesContentKind libs entry id title
    let episodes := keptEpisodes libs now (items (entry.get "episodes".toList)) contentKind
    if episodes.isEmpty then none
    else some {
      id := id
      title := title
      contentKind := contentKind
      tmdbId := normalizeTmdbId (valueString libs (entry.get "tmdbId".toList))
      year := normalizeYear (valueString libs (entry.get "year".toList))
      preferredContainer := "mp4".toList
      requiresLocalEpisodeSources := true
      episodes := episodes.mergeSort ordinalLe }

def normalizeLocalLibrary (rawValue : Value) : Library where
  movies := (items (rawValue.get "movies".toList)).filterMap (normalizeLocalMovieEntry libs now)
  series := (items (rawValue.get "series".toList)).filterMap (normalizeLocalSeriesEntry libs now)

end

def MovieEntry.toValue (entry : MovieEntry) : Value :=
  .object [("id".toList, .string entry.id), ("title".toList, .string entry.title), ("tmdbId".toList, .string entry.tmdbId),
    ("year".toList, .string entry.year), ("src".toList, .string entry.src), ("thumb".toList, .string entry.thumb),
    ("description".toList, .string entry.description), ("uploadedAt".toList, .int entry.uploadedAt.toInt)]

def SeriesEpisodeEntry.toValue (entry : SeriesEpisodeEntry) : Value :=
  .object [("title".toList, .string entry.title), ("description".toList, .string entry.description),
    ("thumb".toList, .string entry.thumb), ("src".toList, .string entry.src), ("contentKind".toList, .string entry.contentKind),
    ("seasonNumber".toList, .int entry.seasonNumber.toInt), ("episodeNumber".toList, .int entry.episodeNumber.toInt),
    ("uploadedAt".toList, .int entry.uploadedAt.toInt)]

def SeriesEntry.toValue (entry : SeriesEntry) : Value :=
  .object [("id".toList, .string entry.id), ("title".toList, .string entry.title), ("contentKind".toList, .string entry.contentKind),
    ("tmdbId".toList, .string entry.tmdbId), ("year".toList, .string entry.year),
    ("preferredContainer".toList, .string entry.preferredContainer),
    ("requiresLocalEpisodeSources".toList, .bool entry.requiresLocalEpisodeSources),
    ("episodes".toList, .array (entry.episodes.map SeriesEpisodeEntry.toValue))]

def Library.toValue (library : Library) : Value :=
  .object [("movies".toList, .array (library.movies.map MovieEntry.toValue)),
    ("series".toList, .array (library.series.map SeriesEntry.toValue))]

/-- The library file: none yet, one that cannot be read or parsed, or one with a document. -/
inductive LibraryFile where
  | absent
  | unreadable
  | holds (document : Value)

inductive LibraryError where
  | unreadable
  | notStored
  | refused
  deriving DecidableEq

section
variable (libs : Libs) (now : Int64)

def readLocalLibrary : LibraryFile → Except LibraryError Library
  | .absent => .ok ⟨[], []⟩
  | .unreadable => .error .unreadable
  | .holds document => .ok (normalizeLocalLibrary libs now document)

/-- The new document is put in the place of the old one when its temp file is complete. -/
def writeLocalLibrary (stored : Bool) (file : LibraryFile) (payload : Value) : Except LibraryError Library × LibraryFile :=
  let normalized := normalizeLocalLibrary libs now payload
  if stored = true then (.ok normalized, .holds normalized.toValue) else (.error .notStored, file)

/-- What the closure makes of the library is written under the same lock, unless it is refused. -/
def mutateLocalLibrary {α : Type} (writeNow : Int64) (stored : Bool) (file : LibraryFile)
    (mutate : Library → Except LibraryError (α × Library)) : Except LibraryError α × LibraryFile :=
  match readLocalLibrary libs now file with
  | .error error => (.error error, file)
  | .ok library =>
    match mutate library with
    | .error error => (.error error, file)
    | .ok (output, changed) =>
      match writeLocalLibrary libs writeNow stored file changed.toValue with
      | (.ok _, written) => (.ok output, written)
      | (.error error, kept) => (.error error, kept)

end

end StreamArena.Catalogue
