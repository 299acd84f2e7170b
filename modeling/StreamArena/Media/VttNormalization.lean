import Mathlib
import StreamArena.Library.Regexes
import StreamArena.Library.TextLines
import StreamArena.Library.Words

/-! Subtitles as they are sent to players: `normalize_subtitle_text_to_vtt` (src/src/media.rs). -/
namespace StreamArena.Media
open AsciiText Words Regexes Regexes.Regex Separated

/-- Decimal digits of any script, of which ASCII has ten and white space none. -/
structure Digits where
  isDigit : Char → Bool
  ascii : ∀ c : Char, c.toNat < 128 → isDigit c = c.isDigit
  whitespace : ∀ c, isWhitespace c = true → isDigit c = false

/-- A letter in any case; the long s folds to the short one. -/
def letter (c : Char) : Regex := .char fun x => x.toLower == c || (c == 's' && x == 'ſ')

def letters (word : Text) : Regex := word.foldr (fun c r => .seq (letter c) r) .empty

def noneOf (c : Char) : Regex := .star (.char fun x => x != c)

def one (c : Char) : Regex := .char fun x => x == c

def assOverride : Regex := .seq (one '{') (.seq (one '\\') (.seq (noneOf '}') (one '}')))

def openCue : Regex :=
  .seq (one '<') (.seq (letter 'c') (.seq (opt (.group (.seq (one '.') (noneOf '>')))) (one '>')))

def closeCue : Regex := .seq (one '<') (.seq (one '/') (.seq (letter 'c') (one '>')))

def openVoice : Regex :=
  .seq (one '<') (.seq (letter 'v')
    (.seq (opt (.seq (.char isWhitespace) (.seq (.star (.char isWhitespace)) (noneOf '>')))) (one '>')))

def closeVoice : Regex := .seq (one '<') (.seq (one '/') (.seq (letter 'v') (one '>')))

def simpleTags : Regex :=
  .alt (letters ['r', 'u', 'b', 'y']) (.alt (letters ['r', 't']) (.alt (letters ['f', 'o', 'n', 't']) (letters ['s', 'p', 'a', 'n'])))

def simpleHtmlTag : Regex :=
  .seq (one '<') (.seq (opt (one '/')) (.seq (.group simpleTags) (.seq (noneOf '>') (one '>'))))

def srtTimestamp (digits : Digits) : Regex :=
  let digit : Regex := .char digits.isDigit
  .seq (.group (.seq digit (.seq digit (.seq (one ':') (.seq digit (.seq digit (opt (.seq (one ':') (.seq digit digit)))))))))
    (.seq (one ',') (.group (.seq digit (.seq digit digit))))

/-- No expression here asks for a word. -/
def noWords : Char → Bool := fun _ => false

def removeAll (r : Regex) (s : Text) : Text := r.replaceAll noWords (fun _ => []) s

def stripCueMarkup (line : Text) : Text :=
  removeAll simpleHtmlTag (removeAll closeVoice (removeAll openVoice (removeAll closeCue (removeAll openCue (removeAll assOverride line)))))

/-- The first group, a point, and the second. -/
def pointed : List Text → Text
  | [clock, fraction] => clock ++ '.' :: fraction
  | _ => []

def normalizeSrtTimestamps (digits : Digits) (s : Text) : Text := (srtTimestamp digits).replaceAll noWords pointed s

def arrowText : Text := "-->".toList
def displayTokens : List Text := ["line:".toList, "position:".toList, "size:".toList, "align:".toList]
def displaySettings : Text := ' ' :: "line:80% position:50% size:88% align:center".toList
def keywords : List Text := ["WEBVTT".toList, "NOTE".toList, "REGION".toList, "X-TIMESTAMP-MAP=".toList]
def styleKeyword : Text := "STYLE".toList
def signature : Text := "WEBVTT".toList

def keepsToken (token : Text) : Bool := !(displayTokens.any fun setting => startsWith token setting)

def applyCueDisplaySettings (line : Text) : Text :=
  let stripped := join ' ' ((splitWhitespace line).filter keepsToken)
  if contains stripped arrowText = true then trim stripped ++ displaySettings else trim stripped

def isStyle (line : Text) : Bool := eqIgnoreAsciiCase (trim line) styleKeyword

def isKeyword (line : Text) : Bool := keywords.any fun keyword => startsWith (trim line) keyword

/-- A line outside of style blocks. -/
def sanitizeLine (line : Text) : Text :=
  if (trim line).isEmpty = true then []
  else if isKeyword line = true then line
  else if contains (trim line) arrowText = true then applyCueDisplaySettings line
  else stripCueMarkup line

def sanitizeLines : Bool → List Text → List Text
  | _, [] => []
  | true, line :: rest => sanitizeLines (!(trim line).isEmpty) rest
  | false, line :: rest =>
    if isStyle line = true then sanitizeLines true rest else sanitizeLine line :: sanitizeLines false rest

def sanitizeVttBody (input : Text) : Text := join '\n' (sanitizeLines false (lines input))

def transparentCueStyle : List Text :=
  ["STYLE".toList, "::cue \x7b".toList, "  background-color: transparent;".toList, "\x7d".toList, "::cue-region \x7b".toList,
    "  background-color: transparent;".toList, "\x7d".toList, []]

def transparentCueStyleBlock : Text := join '\n' transparentCueStyle

def withoutBom (s : Text) : Text := s.dropWhile fun c => c == '\uFEFF'

/-- Pairs of a carriage return and a line feed as line feeds. -/
def replaceCrLf : Text → Text
  | '\r' :: '\n' :: s => '\n' :: replaceCrLf s
  | c :: s => c :: replaceCrLf s
  | [] => []

def normalizeNewlines (s : Text) : Text := (replaceCrLf s).map fun c => if c = '\r' then '\n' else c

def normalizeSubtitleTextToVtt (digits : Digits) (rawText : Text) : Text :=
  let normalized := trim (normalizeNewlines (withoutBom rawText))
  if normalized.isEmpty = true then signature ++ '\n' :: '\n' :: transparentCueStyleBlock
  else if startsWith normalized signature = true then
    let sanitized := sanitizeVttBody normalized
    let withoutHeader := trim (((stripPrefix sanitized signature).getD sanitized).dropWhile fun c => ['\n', ' ', '\t'].contains c)
    signature ++ '\n' :: '\n' :: (transparentCueStyleBlock ++ (withoutHeader ++ ['\n']))
  else
    let vttBody := trim (sanitizeVttBody (normalizeSrtTimestamps digits normalized))
    signature ++ '\n' :: '\n' :: (transparentCueStyleBlock ++ (vttBody ++ ['\n']))

end StreamArena.Media
