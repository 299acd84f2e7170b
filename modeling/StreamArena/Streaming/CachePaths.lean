import StreamArena.Library.Separated
import StreamArena.Library.StableNames

/-! The files of the transcode cache (src/streaming.rs, src/media.rs): what their names are
made of, and when a file that is written for one medium is the file served for another. -/
namespace StreamArena.Streaming
open AsciiText Decimal StableNames

def hlsCacheSchemaVersion : Text := "hls-v7".toList

/-- What `build_hls_video_encode_config` makes of an acceleration mode. -/
inductive EncodeMode where
  | videotoolbox | cuda | qsv | none
  deriving DecidableEq

def EncodeMode.text : EncodeMode → Text
  | videotoolbox => "videotoolbox".toList
  | cuda => "cuda".toList
  | qsv => "qsv".toList
  | none => "none".toList

def hashStableString (value : Text) : Text := hex8 (fnv1a (utf8Bytes value))

/-- A file name joined to a directory. -/
def joinPath (dir name : Text) : Text :=
  (if dir = [] ∨ dir.getLast? = some '/' then dir else dir ++ ['/']) ++ name

/-- The extension of a file name that has one is replaced. -/
def withExtension (path extension : Text) : Text := path.rdropWhile (· != '.') ++ extension

def safeAudioStreamIndex (audioStreamIndex : Int) : Int :=
  if 0 ≤ audioStreamIndex then audioStreamIndex else -1

def buildHlsTranscodeJobKey (sourceInput : Text) (audioStreamIndex : Int) : Text :=
  sourceInput ++ '|' :: ("a:".toList ++ decimalText audioStreamIndex)

def transcodeOutputKey (jobKey : Text) (encodeMode : EncodeMode) : Text :=
  hlsCacheSchemaVersion ++ "|segment:6|encode:".toList ++ (encodeMode.text ++ '|' :: jobKey)

def buildHlsTranscodeOutputPrefix (cacheDir jobKey : Text) (encodeMode : EncodeMode) : Text :=
  joinPath cacheDir
    (hlsCacheSchemaVersion ++ '-' :: hashStableString (transcodeOutputKey jobKey encodeMode))

def buildHlsCompletionMarkerPath (outputPrefix : Text) : Text := outputPrefix ++ ".complete".toList

def buildHlsTranscodeSegmentPathFromPrefix (outputPrefix : Text) (segmentIndex : Int) : Text :=
  outputPrefix ++ '-' :: (zeroPadded 6 segmentIndex.toNat ++ ".ts".toList)

def onDemandKey (sourceInput : Text) (audioStreamIndex segmentIndex : Int) : Text :=
  hlsCacheSchemaVersion ++ "|ondemand|a:".toList ++ (decimalText audioStreamIndex ++
    '|' :: ("i:".toList ++ (decimalText (max segmentIndex 0) ++ '|' :: sourceInput)))

def buildHlsOnDemandSegmentPath (cacheDir sourceInput : Text) (audioStreamIndex segmentIndex : Int) :
    Text :=
  joinPath cacheDir
    (hashStableString (onDemandKey sourceInput audioStreamIndex segmentIndex) ++ ".ts".toList)

def subtitleKey (sourceInput : Text) (subtitleStreamIndex : Int) : Text :=
  sourceInput ++ '|' :: ("s:".toList ++ decimalText subtitleStreamIndex)

def buildSubtitleCachePath (cacheDir sourceInput : Text) (subtitleStreamIndex : Int) : Text :=
  joinPath cacheDir (hashStableString (subtitleKey sourceInput subtitleStreamIndex) ++ ".vtt".toList)

/-- What a file of the cache is asked for, by a segment request that is answered on demand,
by one that is answered from a transcode job, or by a request for a subtitle track. -/
inductive CacheFile where
  | onDemandSegment (sourceInput : Text) (audioStreamIndex segmentIndex : Int)
  | transcodeSegment (sourceInput : Text) (audioStreamIndex : Int) (encodeMode : EncodeMode)
      (segmentIndex : Int)
  | subtitle (sourceInput : Text) (subtitleStreamIndex : Int)

/-- What the bytes of a file are made from. -/
inductive Media where
  | video (sourceInput : Text) (audioStreamIndex segmentIndex : Int)
  | text (sourceInput : Text) (subtitleStreamIndex : Int)
  deriving DecidableEq

namespace CacheFile

def media : CacheFile → Media
  | onDemandSegment source audio segment | transcodeSegment source audio _ segment =>
    .video source (safeAudioStreamIndex audio) (max segment 0)
  | subtitle source stream => .text source stream

/-- The text whose hash is in the name. -/
def key : CacheFile → Text
  | onDemandSegment source audio segment => onDemandKey source (safeAudioStreamIndex audio) segment
  | transcodeSegment source audio mode _ =>
    transcodeOutputKey (buildHlsTranscodeJobKey source (safeAudioStreamIndex audio)) mode
  | subtitle source stream => subtitleKey source stream

/-- The file that is served. -/
def path (cacheDir : Text) : CacheFile → Text
  | onDemandSegment source audio segment =>
    buildHlsOnDemandSegmentPath cacheDir source (safeAudioStreamIndex audio) (max segment 0)
  | transcodeSegment source audio mode segment =>
    buildHlsTranscodeSegmentPathFromPrefix
      (buildHlsTranscodeOutputPrefix cacheDir
        (buildHlsTranscodeJobKey source (safeAudioStreamIndex audio)) mode) segment
  | subtitle source stream => buildSubtitleCachePath cacheDir source stream

/-- The files that are written to make it: itself, the partial file that a rendering is
renamed from, and the list and the marker of a transcode job. -/
def writes (cacheDir : Text) : CacheFile → List Text
  | onDemandSegment source audio segment =>
    let path := (onDemandSegment source audio segment).path cacheDir
    [path, withExtension path "ts.partial".toList]
  | transcodeSegment source audio mode segment =>
    let path := (transcodeSegment source audio mode segment).path cacheDir
    let outputPrefix := buildHlsTranscodeOutputPrefix cacheDir
      (buildHlsTranscodeJobKey source (safeAudioStreamIndex audio)) mode
    [path, withExtension path "ts.partial".toList, outputPrefix ++ ".m3u8".toList,
      buildHlsCompletionMarkerPath outputPrefix]
  | subtitle source stream => [(subtitle source stream).path cacheDir]

/-- Two keys of one kind of file, and of one segment where the name has its number, that the
hash does not tell apart. -/
def Collides : CacheFile → CacheFile → Prop
  | onDemandSegment source audio segment, onDemandSegment source' audio' segment' =>
    let a := (onDemandSegment source audio segment).key
    let b := (onDemandSegment source' audio' segment').key
    a ≠ b ∧ fnv1a (utf8Bytes a) = fnv1a (utf8Bytes b)
  | transcodeSegment source audio mode segment, transcodeSegment source' audio' mode' segment' =>
    let a := (transcodeSegment source audio mode segment).key
    let b := (transcodeSegment source' audio' mode' segment').key
    a ≠ b ∧ fnv1a (utf8Bytes a) = fnv1a (utf8Bytes b) ∧ max segment 0 = max segment' 0
  | subtitle source stream, subtitle source' stream' =>
    let a := (subtitle source stream).key
    let b := (subtitle source' stream').key
    a ≠ b ∧ fnv1a (utf8Bytes a) = fnv1a (utf8Bytes b)
  | _, _ => False

end CacheFile

theorem bar_not_mem_decimalText (n : Int) : '|' ∉ decimalText n := by
  intro h
  rcases mem_decimal h with hdigit | hminus
  · exact absurd hdigit (by decide)
  · exact absurd hminus (by decide)

theorem bar_not_mem_append_decimalText {pre : Text} (h : '|' ∉ pre) (n : Int) :
    '|' ∉ pre ++ decimalText n := by
  rw [List.mem_append, not_or]
  exact ⟨h, bar_not_mem_decimalText n⟩

theorem EncodeMode.bar_not_mem_text (mode : EncodeMode) : '|' ∉ mode.text := by
  cases mode <;> decide

theorem EncodeMode.text_injective : ∀ mode mode' : EncodeMode, mode.text = mode'.text → mode = mode' := by
  intro mode mode' h
  cases mode <;> cases mode' <;> first | rfl | exact absurd h (by decide)

theorem buildHlsTranscodeJobKey_injective {source source' : Text} {audio audio' : Int}
    (h : buildHlsTranscodeJobKey source audio = buildHlsTranscodeJobKey source' audio') :
    source = source' ∧ audio = audio' := by
  obtain ⟨hsource, haudio⟩ := Separated.append_cons_injective
    (bar_not_mem_append_decimalText (by decide) audio) (bar_not_mem_append_decimalText (by decide) audio') h
  exact ⟨hsource, decimal_injective (List.append_cancel_left haudio)⟩

theorem transcodeOutputKey_injective {jobKey jobKey' : Text} {mode mode' : EncodeMode}
    (h : transcodeOutputKey jobKey mode = transcodeOutputKey jobKey' mode') :
    mode = mode' ∧ jobKey = jobKey' := by
  obtain ⟨hmode, hjob⟩ := Separated.first_injective mode.bar_not_mem_text mode'.bar_not_mem_text
    (List.append_cancel_left h)
  exact ⟨EncodeMode.text_injective mode mode' hmode, hjob⟩

theorem onDemandKey_injective {source source' : Text} {audio audio' segment segment' : Int}
    (h : onDemandKey source audio segment = onDemandKey source' audio' segment') :
    source = source' ∧ audio = audio' ∧ max segment 0 = max segment' 0 := by
  obtain ⟨haudio, hrest⟩ := Separated.first_injective (bar_not_mem_decimalText audio)
    (bar_not_mem_decimalText audio') (List.append_cancel_left h)
  obtain ⟨hsegment, hsource⟩ := Separated.first_injective (bar_not_mem_decimalText (max segment 0))
    (bar_not_mem_decimalText (max segment' 0)) (List.append_cancel_left hrest)
  exact ⟨hsource, decimal_injective haudio, decimal_injective hsegment⟩

theorem subtitleKey_injective {source source' : Text} {stream stream' : Int}
    (h : subtitleKey source stream = subtitleKey source' stream') :
    source = source' ∧ stream = stream' := by
  obtain ⟨hsource, hstream⟩ := Separated.append_cons_injective
    (bar_not_mem_append_decimalText (by decide) stream)
    (bar_not_mem_append_decimalText (by decide) stream') h
  exact ⟨hsource, decimal_injective (List.append_cancel_left hstream)⟩

theorem hashStableString_eq_iff {a b : Text} :
    hashStableString a = hashStableString b ↔ fnv1a (utf8Bytes a) = fnv1a (utf8Bytes b) :=
  ⟨hex8_injective, congrArg hex8⟩

@[simp] theorem length_hashStableString (value : Text) : (hashStableString value).length = 8 :=
  length_hex8 _

namespace CacheFile
variable {cacheDir : Text}

/-- What a file is named within the directory. -/
def name : CacheFile → Text
  | onDemandSegment source audio segment =>
    hashStableString (onDemandSegment source audio segment).key ++ ".ts".toList
  | transcodeSegment source audio mode segment =>
    hlsCacheSchemaVersion ++ '-' :: (hashStableString (transcodeSegment source audio mode segment).key ++
      '-' :: (zeroPadded 6 segment.toNat ++ ".ts".toList))
  | subtitle source stream => hashStableString (subtitle source stream).key ++ ".vtt".toList

theorem path_eq_joinPath (file : CacheFile) : file.path cacheDir = joinPath cacheDir file.name := by
  cases file with
  | onDemandSegment source audio segment =>
    have hkey : onDemandKey source (safeAudioStreamIndex audio) (max segment 0) =
        onDemandKey source (safeAudioStreamIndex audio) segment := by
      rw [onDemandKey, onDemandKey, max_assoc, max_self]
    rw [path, buildHlsOnDemandSegmentPath, hkey]
    rfl
  | transcodeSegment source audio mode segment =>
    simp only [path, buildHlsTranscodeSegmentPathFromPrefix, buildHlsTranscodeOutputPrefix, joinPath, name,
      key, List.append_assoc, List.cons_append]
  | subtitle source stream => rfl

theorem path_eq_path_iff {f g : CacheFile} : f.path cacheDir = g.path cacheDir ↔ f.name = g.name := by
  rw [path_eq_joinPath, path_eq_joinPath]
  exact List.append_right_inj _

theorem six_le_length_zeroPadded (n : Nat) : 6 ≤ (zeroPadded 6 n).length := by
  rw [zeroPadded, List.leftpad, List.length_append, List.length_replicate]
  omega

theorem length_name_onDemandSegment (source : Text) (audio segment : Int) :
    (onDemandSegment source audio segment).name.length = 11 := by
  rw [name, List.length_append, length_hashStableString]
  rfl

theorem length_name_subtitle (source : Text) (stream : Int) : (subtitle source stream).name.length = 12 := by
  rw [name, List.length_append, length_hashStableString]
  rfl

theorem le_length_name_transcodeSegment (source : Text) (audio : Int) (mode : EncodeMode) (segment : Int) :
    25 ≤ (transcodeSegment source audio mode segment).name.length := by
  have hpadded := six_le_length_zeroPadded segment.toNat
  have hschema : hlsCacheSchemaVersion.length = 6 := rfl
  have hextension : ".ts".toList.length = 3 := rfl
  simp only [name, List.length_append, List.length_cons, length_hashStableString, hschema, hextension]
  omega

/-- How long the names of a kind are. -/
def nameLength : CacheFile → Nat
  | onDemandSegment .. => 11
  | subtitle .. => 12
  | transcodeSegment .. => 25

/-- A name is too short or too long to be one of another kind. -/
theorem nameLength_eq_of_name_eq {f g : CacheFile} (h : f.name = g.name) : f.nameLength = g.nameLength := by
  have hlength (file : CacheFile) :
      file.nameLength = min file.name.length 25 := by
    cases file with
    | onDemandSegment source audio segment => rw [length_name_onDemandSegment]; rfl
    | transcodeSegment source audio mode segment =>
      exact (min_eq_right (le_length_name_transcodeSegment source audio mode segment)).symm
    | subtitle source stream => rw [length_name_subtitle]; rfl
  rw [hlength f, hlength g, h]

theorem transcodeSegment_name_eq_iff {source source' : Text} {audio audio' segment segment' : Int}
    {mode mode' : EncodeMode} :
    (transcodeSegment source audio mode segment).name = (transcodeSegment source' audio' mode' segment').name ↔
      fnv1a (utf8Bytes (transcodeSegment source audio mode segment).key) =
        fnv1a (utf8Bytes (transcodeSegment source' audio' mode' segment').key) ∧
      max segment 0 = max segment' 0 := by
  rw [← hashStableString_eq_iff]
  constructor
  · intro h
    obtain ⟨-, hrest⟩ := List.cons_eq_cons.mp (List.append_cancel_left h)
    obtain ⟨hhash, hnumber⟩ := List.append_inj hrest (by simp)
    obtain ⟨-, hpadded⟩ := List.cons_eq_cons.mp hnumber
    have hsegment := zeroPadded_injective (List.append_cancel_right hpadded)
    exact ⟨hhash, by omega⟩
  · rintro ⟨hhash, hsegment⟩
    have htoNat : segment.toNat = segment'.toNat := by omega
    rw [name, name, hhash, htoNat]

/-- Two files of one path are of one medium, or their keys collide. -/
theorem path_eq_iff_collides {f g : CacheFile} (hmedia : f.media ≠ g.media) :
    f.path cacheDir = g.path cacheDir ↔ f.Collides g := by
  rw [path_eq_path_iff]
  cases f with
  | onDemandSegment source audio segment =>
    cases g with
    | onDemandSegment source' audio' segment' =>
      have hkey : (onDemandSegment source audio segment).key ≠ (onDemandSegment source' audio' segment').key := by
        intro h
        obtain ⟨hsource, haudio, hsegment⟩ := onDemandKey_injective h
        exact hmedia (by rw [media, media, hsource, haudio, hsegment])
      rw [name, name, List.append_left_inj, hashStableString_eq_iff]
      exact ⟨fun h => ⟨hkey, h⟩, fun h => h.2⟩
    | transcodeSegment source' audio' mode' segment' =>
      exact ⟨fun h => absurd (nameLength_eq_of_name_eq h) (by simp [nameLength]), False.elim⟩
    | subtitle source' stream' =>
      exact ⟨fun h => absurd (nameLength_eq_of_name_eq h) (by simp [nameLength]), False.elim⟩
  | transcodeSegment source audio mode segment =>
    cases g with
    | onDemandSegment source' audio' segment' =>
      exact ⟨fun h => absurd (nameLength_eq_of_name_eq h) (by simp [nameLength]), False.elim⟩
    | transcodeSegment source' audio' mode' segment' =>
      rw [transcodeSegment_name_eq_iff]
      refine ⟨fun h => ⟨fun hkey => ?_, h⟩, fun h => h.2⟩
      obtain ⟨-, hjob⟩ := transcodeOutputKey_injective hkey
      obtain ⟨hsource, haudio⟩ := buildHlsTranscodeJobKey_injective hjob
      exact hmedia (by rw [media, media, hsource, haudio, h.2])
    | subtitle source' stream' =>
      exact ⟨fun h => absurd (nameLength_eq_of_name_eq h) (by simp [nameLength]), False.elim⟩
  | subtitle source stream =>
    cases g with
    | onDemandSegment source' audio' segment' =>
      exact ⟨fun h => absurd (nameLength_eq_of_name_eq h) (by simp [nameLength]), False.elim⟩
    | transcodeSegment source' audio' mode' segment' =>
      exact ⟨fun h => absurd (nameLength_eq_of_name_eq h) (by simp [nameLength]), False.elim⟩
    | subtitle source' stream' =>
      have hkey : (subtitle source stream).key ≠ (subtitle source' stream').key := by
        intro h
        obtain ⟨hsource, hstream⟩ := subtitleKey_injective h
        exact hmedia (by rw [media, media, hsource, hstream])
      rw [name, name, List.append_left_inj, hashStableString_eq_iff]
      exact ⟨fun h => ⟨hkey, h⟩, fun h => h.2⟩

theorem exists_path_eq (file : CacheFile) (cacheDir : Text) : ∃ text, file.path cacheDir = text ++ ".ts".toList ∨
    file.path cacheDir = text ++ ".vtt".toList := by
  cases file with
  | onDemandSegment source audio segment => exact ⟨_, Or.inl (List.append_assoc ..).symm⟩
  | transcodeSegment source audio mode segment =>
    refine ⟨buildHlsTranscodeOutputPrefix cacheDir
      (buildHlsTranscodeJobKey source (safeAudioStreamIndex audio)) mode ++
        '-' :: zeroPadded 6 segment.toNat, Or.inl ?_⟩
    rw [List.append_assoc, List.cons_append]
    rfl
  | subtitle source stream => exact ⟨_, Or.inr (List.append_assoc ..).symm⟩

/-- A file that is served ends as no partial file, list or marker does. -/
theorem path_ne_append (file : CacheFile) (text : Text) {extension : Text} {c : Char}
    (hextension : extension.getLast? = some c) (hs : c ≠ 's') (ht : c ≠ 't') :
    file.path cacheDir ≠ text ++ extension := by
  intro h
  have hlast : (file.path cacheDir).getLast? = some c := by
    rw [h, List.getLast?_append, hextension, Option.some_or]
  obtain ⟨stem, hstem | hstem⟩ := file.exists_path_eq cacheDir
  · rw [hstem, List.getLast?_append] at hlast
    exact hs (Option.some.inj hlast).symm
  · rw [hstem, List.getLast?_append] at hlast
    exact ht (Option.some.inj hlast).symm

theorem mem_writes_iff {f g : CacheFile} :
    g.path cacheDir ∈ f.writes cacheDir ↔ f.path cacheDir = g.path cacheDir := by
  have hpartial (text : Text) : g.path cacheDir ≠ withExtension text "ts.partial".toList :=
    g.path_ne_append _ (c := 'l') rfl (by decide) (by decide)
  have hlist (text : Text) : g.path cacheDir ≠ text ++ ".m3u8".toList :=
    g.path_ne_append _ (c := '8') rfl (by decide) (by decide)
  have hmarker (text : Text) : g.path cacheDir ≠ buildHlsCompletionMarkerPath text :=
    g.path_ne_append _ (c := 'e') rfl (by decide) (by decide)
  cases f <;> simp only [writes, List.mem_cons, List.not_mem_nil, hpartial, hlist, hmarker, or_false] <;>
    exact eq_comm

end CacheFile

/-- For two files of different media in one cache directory, none that is written for the one
is the one served for the other, unless the hash of their keys collides. -/
theorem served_not_written_iff (cacheDir : Text) (f g : CacheFile) (h : f.media ≠ g.media) :
    g.path cacheDir ∉ f.writes cacheDir ↔ ¬ f.Collides g := by
  rw [CacheFile.mem_writes_iff, CacheFile.path_eq_iff_collides h]

/-- Two segments of one source, as an instance. -/
theorem served_not_written_iff_next :
    (CacheFile.onDemandSegment "/srv/videos/a.mkv".toList (-1) 1).path "/var/hls".toList ∉
        (CacheFile.onDemandSegment "/srv/videos/a.mkv".toList (-1) 0).writes "/var/hls".toList ↔
      ¬ (CacheFile.onDemandSegment "/srv/videos/a.mkv".toList (-1) 0).Collides
        (CacheFile.onDemandSegment "/srv/videos/a.mkv".toList (-1) 1) :=
  served_not_written_iff _ _ _ (by decide)

/-- Two films of one directory have one file for their first segments. -/
theorem segment_shared_by_sources :
    ¬ ∀ (cacheDir : Text) (f g : CacheFile), f.media ≠ g.media →
      g.path cacheDir ∉ f.writes cacheDir := by
  intro h
  refine h "/var/hls".toList (.onDemandSegment "/srv/videos/fulpid.mkv".toList (-1) 0)
    (.onDemandSegment "/srv/videos/ihmqpy.mkv".toList (-1) 0) (by decide) ?_
  decide +kernel

end StreamArena.Streaming
