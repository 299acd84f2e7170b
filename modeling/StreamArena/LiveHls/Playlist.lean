import StreamArena.Library.MediaPlaylist
import StreamArena.LiveHls.Authorize

/-! Rewriting an upstream playlist (src/live.rs): its URIs go through the proxy under the
grant of the request, a live window is cut to its last segments, a ladder to 1080p. -/
namespace StreamArena.LiveHls
open AsciiText Decimal Separated

def liveHlsEdgeSegmentCount : Nat := 8

/-- The doubles a start offset is computed with, from the language. -/
structure Floats where
  Value : Type
  parse : Text → Option Value
  ofNat : Nat → Value
  sum : List Value → Value
  half : Value → Value
  min : Value → Value → Value
  ge : Value → Value → Bool
  fixed3 : Value → Text

def uriAttribute : Text := "URI=\"".toList

/-- The height of a rendition, from its resolution. -/
def streamInfResolutionHeight (line : Text) : Option Nat :=
  (splitOnce "RESOLUTION=".toList (toAsciiUppercase line)).bind fun parts =>
    let value := parts.2.takeWhile fun c => !(c == ',' || c == ' ' || c == '\t')
    (splitOnce ['X'] value).bind fun size => parseU32 (trim size.2)

/-- The ladder without the renditions above 1080p, unless no rendition fits. -/
def capExternalEmbedMasterTo1080p (lines : List Text) : List Text :=
  if lines.any fun line => startsWith (trimStart line) "#EXT-X-STREAM-INF".toList && !tooHigh line then
    keep false lines
  else lines
where
  tooHigh (line : Text) : Bool := (streamInfResolutionHeight line).any fun height => decide (height > 1080)
  keep : Bool → List Text → List Text
  | _, [] => []
  | dropNextUri, line :: rest =>
    let trimmed := trimStart line
    if startsWith trimmed "#EXT-X-STREAM-INF".toList then
      if tooHigh line then keep true rest else line :: keep false rest
    else if startsWith trimmed "#EXT-X-I-FRAME-STREAM-INF".toList then
      -- its URI is in the line itself
      if tooHigh line then keep dropNextUri rest else line :: keep dropNextUri rest
    else if dropNextUri && (!trimmed.isEmpty && !startsWith trimmed ['#']) then keep false rest
    else line :: keep false rest

def removeStreamInfCodecsAttribute (line : Text) : Text :=
  match splitOnce [':'] line with
  | none => line
  | some (tag, attributes) =>
    let parts := MediaPlaylist.splitUnquoted ',' false attributes
    let parts := parts.dropLast ++ parts.getLast?.toList.filter fun part => !part.isEmpty
    let kept := parts.filter fun part =>
      !startsWith (toAsciiUppercase (trimStart part)) "CODECS=".toList
    tag ++ ':' :: join ',' kept

def stripVideoOnlyStreamInfCodecs (line : Text) : Text :=
  if !startsWith (trimStart line) "#EXT-X-STREAM-INF".toList then line
  else
    let lower := toAsciiLowercase line
    if !contains lower "codecs=".toList then line
    else if ["mp4a", "ac-3", "ec-3", "opus", "flac", "alac", "dts"].any fun needle =>
        contains lower needle.toList then line
    else removeStreamInfCodecsAttribute line

def hlsLineIsAudioMedia (line : Text) : Bool :=
  let lower := toAsciiLowercase line
  startsWith lower "#ext-x-media:".toList && contains lower "type=audio".toList

def hlsMediaLineLooksEnglish (line : Text) : Bool :=
  let lower := toAsciiLowercase line
  contains lower "language=\"eng\"".toList || contains lower "language=eng".toList ||
    contains lower "language=\"en\"".toList || contains lower "language=en".toList ||
    contains lower "name=\"english\"".toList || contains lower "name=english".toList

/-- Where an attribute starts: at the front of the line or after a comma. -/
def findHlsAttributeStart (line attrName : Text) : Option Nat :=
  search line.length 0
where
  search : Nat → Nat → Option Nat
  | 0, _ => none
  | fuel + 1, searchStart =>
    match splitOnce (attrName ++ ['=']) ((toAsciiUppercase line).drop searchStart) with
    | none => none
    | some (before, _) =>
      let index := searchStart + before.length
      if index = 0 ∨ (line.take index).getLast? = some ',' then some index
      else search fuel (index + (attrName.length + 1))

def setHlsBooleanAttribute (line attrName : Text) (enabled : Bool) : Text :=
  let value := if enabled then "YES".toList else "NO".toList
  match findHlsAttributeStart line attrName with
  | none => line ++ ',' :: attrName ++ '=' :: value
  | some start =>
    let valueStart := start + attrName.length + 1
    line.take valueStart ++ value ++ (line.drop valueStart).dropWhile (· != ',')

def preferEnglishHlsAudioDefault (line : Text) : Text :=
  if !hlsLineIsAudioMedia line then line
  else
    let isEnglish := hlsMediaLineLooksEnglish line
    setHlsBooleanAttribute (setHlsBooleanAttribute line "DEFAULT".toList isEnglish)
      "AUTOSELECT".toList isEnglish

def preferEnglishHlsAudioDefaults (lines : List Text) : List Text :=
  if lines.any fun line => hlsLineIsAudioMedia line && hlsMediaLineLooksEnglish line then
    lines.map preferEnglishHlsAudioDefault
  else lines

def isVodPlaylist (lines : List Text) : Bool :=
  lines.any fun line =>
    eqIgnoreAsciiCase (trim line) "#EXT-X-ENDLIST".toList ||
      eqIgnoreAsciiCase (trim line) "#EXT-X-PLAYLIST-TYPE:VOD".toList

def sequenceTag (line : Text) : Option Text := stripPrefix line "#EXT-X-MEDIA-SEQUENCE:".toList

/-- A tag that stays with the segment after it, also the first. -/
def staysWithSegment (line : Text) : Bool :=
  startsWith line "#EXTINF".toList || startsWith line "#EXT-X-KEY".toList ||
    startsWith line "#EXT-X-MAP".toList || startsWith line "#EXT-X-PROGRAM-DATE-TIME".toList ||
      startsWith line "#EXT-X-DISCONTINUITY".toList

section window
variable (floats : Floats)

/-- What the scan of a live playlist has gathered. -/
structure MediaScan where
  header : List Text
  pendingBlock : List Text
  pendingDuration : floats.Value
  segmentBlocks : List (List Text)
  segmentDurations : List floats.Value
  originalMediaSequence : Int
  sawSegment : Bool

def MediaScan.empty : MediaScan floats := ⟨[], [], floats.ofNat 0, [], [], 0, false⟩

def extinfDuration (line : Text) : Option floats.Value :=
  (stripPrefix line "#EXTINF:".toList).map fun value =>
    (floats.parse (trim (value.takeWhile (· != ',')))).getD (floats.ofNat 0)

variable {floats}

/-- One line of the scan; `rewriteTag` and `rewriteUri` write what goes into the output. -/
def MediaScan.step (rewriteTag rewriteUri : Text → Text) (scan : MediaScan floats) (rawLine : Text) :
    MediaScan floats :=
  let line := trimEnd rawLine
  if (trim line).isEmpty then scan
  else
    match sequenceTag line with
    | some value => { scan with originalMediaSequence := (parseI64 (trim value)).getD 0 }
    | none =>
      if startsWith line "#EXT-X-ENDLIST".toList then scan
      else if startsWith line ['#'] then
        let scan := { scan with pendingDuration := (extinfDuration floats line).getD scan.pendingDuration }
        if !scan.sawSegment && !staysWithSegment line then
          { scan with header := scan.header ++ [rewriteTag line] }
        else { scan with pendingBlock := scan.pendingBlock ++ [rewriteTag line] }
      else
        { scan with
          sawSegment := true
          segmentBlocks := scan.segmentBlocks ++ [scan.pendingBlock ++ [rewriteUri line]]
          segmentDurations := scan.segmentDurations ++ [scan.pendingDuration]
          pendingBlock := []
          pendingDuration := floats.ofNat 0 }

def scanMedia (rewriteTag rewriteUri : Text → Text) (lines : List Text) : MediaScan floats :=
  lines.foldl (MediaScan.step rewriteTag rewriteUri) (MediaScan.empty floats)

/-- The start tag of a window that has room for one. -/
def MediaScan.startTag (scan : MediaScan floats) (dropped : Nat) : List Text :=
  let keptWindow := floats.sum (scan.segmentDurations.drop dropped)
  let startOffset := floats.min (floats.ofNat 18) (floats.half keptWindow)
  if floats.ge startOffset (floats.ofNat 2) then
    ["#EXT-X-START:TIME-OFFSET=-".toList ++ floats.fixed3 startOffset ++ ",PRECISE=NO".toList]
  else []

def MediaScan.droppedSegments (scan : MediaScan floats) : Nat :=
  scan.segmentBlocks.length - liveHlsEdgeSegmentCount

/-- The sum a window's first sequence number is, before it is cut to 64 bits. -/
def MediaScan.nextMediaSequence (scan : MediaScan floats) : Int :=
  scan.originalMediaSequence + scan.droppedSegments

/-- The output of a live playlist. -/
def MediaScan.window (scan : MediaScan floats) : List Text :=
  let header := if scan.header.contains "#EXTM3U".toList then scan.header
    else "#EXTM3U".toList :: scan.header
  header ++ scan.startTag scan.droppedSegments ++
    ["#EXT-X-MEDIA-SEQUENCE:".toList ++ decimalText (wrapI64 scan.nextMediaSequence)] ++
    (scan.segmentBlocks.drop scan.droppedSegments).flatten

end window

section rewrite
variable (libs : Libraries)

def resolveHlsUri (baseUrl : libs.urls.Url) (value : Text) : Option Text :=
  let trimmed := trim value
  if trimmed.isEmpty then none else (libs.urls.join baseUrl trimmed).map libs.urls.asStr

def isCorsDirectHlsHost (host : Text) : Bool :=
  let host := toAsciiLowercase (Urls.trimEndDots (trim host))
  host == "tcloud.lordflix.club".toList || host == "tiktokcdn.com".toList ||
    endsWith host ".tiktokcdn.com".toList

def isCurlFetchLiveHlsUpstream (url : libs.urls.Url) : Bool :=
  ((libs.urls.hostStr url).map toAsciiLowercase).any fun host =>
    host == "storm.vodvidl.site".toList || endsWith host ".vodvidl.site".toList ||
      host == "typhoontigertribe.net".toList || endsWith host ".typhoontigertribe.net".toList ||
      host == "vixsrc.to".toList || endsWith host ".vixsrc.to".toList ||
      host == "vix-content.net".toList || endsWith host ".vix-content.net".toList

def directHlsUrlIfEligible (input : Text) (directSegments : Bool) : Option Text :=
  if !directSegments then none
  else
    (libs.urls.parse input).bind fun url =>
      (libs.urls.hostStr url).bind fun host =>
        if isCorsDirectHlsHost host && !isCurlFetchLiveHlsUpstream libs url then some input else none

/-- The line with its first URI attribute resolved and built anew. -/
def rewriteHlsUriAttribute (baseUrl : libs.urls.Url) (line : Text) (referer : Option Text)
    (proxyUrlBuilder : Text → Option Text → Text) : Text :=
  match splitOnce uriAttribute line with
  | none => line
  | some (before, rest) =>
    match splitOnce ['"'] rest with
    | none => line
    | some (uriValue, after) =>
      match resolveHlsUri libs baseUrl uriValue with
      | none => line
      | some absoluteUri =>
        before ++ uriAttribute ++ proxyUrlBuilder absoluteUri referer ++ '"' :: after

def shouldOmitHlsResourceReferer (baseUrl : libs.urls.Url) (input : Text) (referer : Option Text) :
    Bool :=
  let isVidlink := ((referer.bind libs.urls.parse).bind libs.urls.hostStr).any fun host =>
    eqIgnoreAsciiCase host "vidlink.pro".toList
  isVidlink &&
    match (libs.urls.parse input).bind libs.urls.hostStr, libs.urls.hostStr baseUrl with
    | some resourceHost, some baseHost => !eqIgnoreAsciiCase resourceHost baseHost
    | _, _ => false

def liveHlsResourceRefererForUrl (baseUrl : libs.urls.Url) (input : Text) (referer : Option Text) :
    Option Text :=
  if shouldOmitHlsResourceReferer libs baseUrl input referer then none else referer

def hlsUrlLooksLikeVixsrc (url : libs.urls.Url) : Bool :=
  ((libs.urls.hostStr url).map toAsciiLowercase).any fun host =>
    host == "vixsrc.to".toList || endsWith host ".vixsrc.to".toList

def shouldPreferEnglishHlsAudio (baseUrl : libs.urls.Url) (referer : Option Text) : Bool :=
  hlsUrlLooksLikeVixsrc libs baseUrl ||
    (referer.bind libs.urls.parse).any (hlsUrlLooksLikeVixsrc libs)

def liveHlsPlaylistPath : Text := "/api/live/hls.m3u8".toList
def liveHlsResourcePath : Text := "/api/live/hls-resource".toList

def tagVodResourceUrl (url : Text) : Text :=
  if startsWith url liveHlsResourcePath then url ++ "&vod=1".toList else url

/-- The request a playlist is rewritten for, and whether old signatures are still minted. -/
structure Rewrite where
  baseUrl : libs.urls.Url
  referer : Option Text
  signingContext : Option LiveHlsSigningContext
  directSegments : Bool
  emitLegacySignature : Bool

variable {libs}

def Rewrite.proxyUrl (rewrite : Rewrite libs) (path input : Text) (referer : Option Text) : Text :=
  liveHlsProxyUrlWithLegacyTransition libs path input referer rewrite.signingContext
    rewrite.emitLegacySignature

/-- A variant or a resource of a master playlist. -/
def Rewrite.masterUrl (rewrite : Rewrite libs) (path input : Text) (referer : Option Text) : Text :=
  (directHlsUrlIfEligible libs input rewrite.directSegments).getD (rewrite.proxyUrl path input referer)

/-- A resource of a live media playlist. -/
def Rewrite.liveUrl (rewrite : Rewrite libs) (input : Text) (referer : Option Text) : Text :=
  (directHlsUrlIfEligible libs input rewrite.directSegments).getD
    (rewrite.proxyUrl liveHlsResourcePath input
      (liveHlsResourceRefererForUrl libs rewrite.baseUrl input referer))

/-- A resource of a finished media playlist. -/
def Rewrite.vodUrl (rewrite : Rewrite libs) (input : Text) (referer : Option Text) : Text :=
  (directHlsUrlIfEligible libs input rewrite.directSegments).getD
    (tagVodResourceUrl (rewrite.proxyUrl liveHlsResourcePath input
      (liveHlsResourceRefererForUrl libs rewrite.baseUrl input referer)))

def Rewrite.tag (rewrite : Rewrite libs) (proxyUrlBuilder : Text → Option Text → Text) (line : Text) :
    Text :=
  rewriteHlsUriAttribute libs rewrite.baseUrl line rewrite.referer proxyUrlBuilder

def Rewrite.uri (rewrite : Rewrite libs) (proxyUrlBuilder : Text → Option Text → Text) (line : Text) :
    Text :=
  ((resolveHlsUri libs rewrite.baseUrl line).map fun absoluteUri =>
    proxyUrlBuilder absoluteUri rewrite.referer).getD line

/-- The path of what a tag of a master playlist names. -/
def masterTagPath (line : Text) : Text :=
  if startsWith line "#EXT-X-MEDIA:".toList || startsWith line "#EXT-X-I-FRAME-STREAM-INF:".toList then
    liveHlsPlaylistPath
  else liveHlsResourcePath

def Rewrite.masterLine (rewrite : Rewrite libs) (rawLine : Text) : Text :=
  let line := trimEnd rawLine
  if (trim line).isEmpty then line
  else if startsWith line ['#'] then
    stripVideoOnlyStreamInfCodecs (rewrite.tag (rewrite.masterUrl (masterTagPath line)) line)
  else rewrite.uri (rewrite.masterUrl liveHlsPlaylistPath) line

/-- The providers whose whole ladder is kept. -/
def isFullLadderReferer (referer : Option Text) : Bool :=
  referer = some "https://cinejoy.pk/".toList || referer = some "https://cinejoy.to/".toList ||
    referer = some "https://www.movy.bz/".toList

def Rewrite.masterLines (rewrite : Rewrite libs) (lines : List Text) : List Text :=
  if rewrite.signingContext.isSome && !rewrite.directSegments && !isFullLadderReferer rewrite.referer then
    capExternalEmbedMasterTo1080p lines
  else lines

def rewriteLiveHlsMasterPlaylist (rewrite : Rewrite libs) (lines : List Text) : Text :=
  let rewritten := (rewrite.masterLines lines).map rewrite.masterLine
  join '\n' (if shouldPreferEnglishHlsAudio libs rewrite.baseUrl rewrite.referer then
    preferEnglishHlsAudioDefaults rewritten
  else rewritten)

def Rewrite.vodLine (rewrite : Rewrite libs) (rawLine : Text) : Text :=
  let line := trimEnd rawLine
  if (trim line).isEmpty then line
  else if startsWith line ['#'] then rewrite.tag rewrite.vodUrl line
  else rewrite.uri rewrite.vodUrl line

def rewriteVodHlsMediaPlaylist (rewrite : Rewrite libs) (lines : List Text) : Text :=
  join '\n' (lines.map rewrite.vodLine)

variable (floats : Floats)

def rewriteLiveHlsMediaPlaylist (rewrite : Rewrite libs) (lines : List Text) : Text :=
  if isVodPlaylist lines then rewriteVodHlsMediaPlaylist rewrite lines
  else
    let scan : MediaScan floats := scanMedia (rewrite.tag rewrite.liveUrl) (rewrite.uri rewrite.liveUrl)
      lines
    if scan.segmentBlocks.isEmpty then join '\n' lines else join '\n' scan.window

def rewriteLiveHlsPlaylist (rewrite : Rewrite libs) (playlist : Text) : Text :=
  let lines := AsciiText.lines playlist
  if lines.any fun line => startsWith (trimStart line) "#EXT-X-STREAM-INF".toList then
    rewriteLiveHlsMasterPlaylist rewrite lines
  else if lines.any fun line => startsWith (trimStart line) "#EXTINF".toList then
    rewriteLiveHlsMediaPlaylist floats rewrite lines
  else playlist

end rewrite

end StreamArena.LiveHls
