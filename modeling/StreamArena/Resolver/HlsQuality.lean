import Mathlib
import StreamArena.Library.Decimal
import StreamArena.Library.TextLines
import StreamArena.Library.Urls
import StreamArena.LiveHls.Attributes

/-! Master playlists with a variant in high definition (src/resolver/hls_quality.rs), and
the best of them (src/resolver/miami.rs). -/
namespace StreamArena.Resolver.HlsQuality
open AsciiText Decimal Separated Urls LiveHls.AudioDefaults

def header : Text := "#EXTM3U".toList
def streamInf : Text := "#EXT-X-STREAM-INF:".toList
def resolutionName : Text := "RESOLUTION".toList

/-- The width and the height that a piece between two commas reads as. -/
def readResolution (piece : Text) : Option (Nat × Nat) := do
  let resolution ← stripPrefix (trim piece) (resolutionName ++ ['='])
  let (width, height) ← splitOnce ['x'] resolution
  let w ← parseU32 width
  let h ← parseU32 height
  some (w, h)

def reaches (minWidth minHeight : Nat) (size : Nat × Nat) : Bool :=
  decide (0 < size.1) && decide (0 < size.2) && (decide (minWidth ≤ size.1) || decide (minHeight ≤ size.2))

/-- A line that is neither blank nor a comment nor a tag. -/
def isUri (line : Text) : Bool := !line.isEmpty && !startsWith line ['#']

def offersResolution.scan (minWidth minHeight : Nat) : Bool → List Text → Bool
  | _, [] => false
  | pendingHd, line :: lines =>
    match stripPrefix line streamInf with
    | some attributes =>
      scan minWidth minHeight
        ((attributes.splitOn ',').any fun piece => (readResolution piece).any (reaches minWidth minHeight)) lines
    | none =>
      if isUri line then (if pendingHd then true else scan minWidth minHeight false lines)
      else scan minWidth minHeight pendingHd lines

def offersResolution (playlist : Text) (minWidth minHeight : Nat) : Bool :=
  startsWith (trimStart playlist) header && offersResolution.scan minWidth minHeight false ((lines playlist).map trim)

def offersFullHd (playlist : Text) : Bool := offersResolution playlist 1920 1080
def offersHd (playlist : Text) : Bool := offersResolution playlist 1280 720

/-- What the code asks of a URL library. -/
structure UrlLibrary where
  Url : Type
  join : Url → Text → Option Url
  scheme : Url → Text
  username : Url → Text
  password : Url → Option Text
  port : Url → Option Nat
  hostStr : Url → Option Text

def isPublicExternalEmbedHlsHostname (host : Text) : Bool :=
  let host := toAsciiLowercase (trimEndDots (trim host))
  if host.isEmpty || host.contains ':' || host == "localhost".toList || endsWith host ".localhost".toList ||
      endsWith host ".local".toList || endsWith host ".internal".toList || isIpv4Addr host then false
  else
    host.contains '.' && !startsWith host ['.'] && !endsWith host ['.'] && !contains host ['.', '.'] &&
      host.all fun c => c.isLower || c.isDigit || c == '.' || c == '-'

section urls
variable (urls : UrlLibrary)

def validDestination (url : urls.Url) : Bool :=
  urls.scheme url == "https".toList && (urls.username url).isEmpty && (urls.password url).isNone &&
    (urls.port url).isNone && (urls.hostStr url).any isPublicExternalEmbedHlsHostname

/-- Where the line of a variant leads to. -/
def destination (base : urls.Url) (line : Text) : Option urls.Url := (urls.join base line).filter (validDestination urls)

/-- The pixels of the first piece of a tag that reads as full HD. -/
def advertisedPixels (minWidth minHeight : Nat) (pieces : List Text) : Option Nat :=
  pieces.findSome? fun piece => ((readResolution piece).filter (reaches minWidth minHeight)).map fun size => size.1 * size.2

def highestHdRendition.scan (base : urls.Url) : Option Nat → Option (urls.Url × Nat) → List Text → Option (urls.Url × Nat)
  | _, best, [] => best
  | pending, best, line :: lines =>
    match stripPrefix line streamInf with
    | some attributes => scan base (advertisedPixels 1920 1080 (attributes.splitOn ',')) best lines
    | none =>
      if isUri line then
        match pending with
        | none => scan base none best lines
        | some pixels =>
          match destination urls base line with
          | none => scan base none best lines
          | some url =>
            if best.all fun previous => decide (previous.2 < pixels) then scan base none (some (url, pixels)) lines
            else scan base none best lines
      else scan base pending best lines

def highestHdRendition (base : urls.Url) (playlist : Text) : Option (urls.Url × Nat) :=
  if !startsWith (trimStart playlist) header then none
  else highestHdRendition.scan urls base none none ((lines playlist).map trim)

end urls

/-! What a player reads. -/

/-- An attribute as a tag carries it: within quotes anything but quotes and line ends,
otherwise neither quotes, commas nor white space. -/
structure WellFormed (a : Attribute) : Prop where
  proper : a.Proper
  value : match a.value with
    | .quoted text => '\n' ∉ text ∧ '\r' ∉ text
    | .bare text => text.any isWhitespace = false

structure AttributeList where
  attributes : List Attribute
  wellFormed : ∀ a ∈ attributes, WellFormed a

def AttributeList.text (list : AttributeList) : Text := join ',' (list.attributes.map Attribute.text)

/-- Two numbers with an x between them. -/
def decimalResolution (value : Text) : Option (Nat × Nat) := do
  let (width, height) ← splitOnce ['x'] value
  let w ← parseDigits width
  let h ← parseDigits height
  some (w, h)

/-- The resolution of a variant is its own attribute. -/
def ownPixels (minWidth minHeight : Nat) (a : Attribute) : Option Nat :=
  match a.value with
  | .quoted _ => none
  | .bare value =>
    if a.name = resolutionName then
      ((decimalResolution value).filter (reaches minWidth minHeight)).map fun size => size.1 * size.2
    else none

def AttributeList.pixels (minWidth minHeight : Nat) (list : AttributeList) : Option Nat :=
  list.attributes.findSome? (ownPixels minWidth minHeight)

/-- The URI of a tag: the next line that is neither blank nor a comment, unless that is a tag. -/
def uriOf : List Text → Option Text
  | [] => none
  | line :: lines => if isUri line then some line else if (stripPrefix line streamInf).isSome then none else uriOf lines

/-- The tags that have a URI, each with it. -/
def variants : List Text → List (Text × Text)
  | [] => []
  | line :: lines =>
    ((stripPrefix line streamInf).bind fun attributes => (uriOf lines).map fun uri => (attributes, uri)).toList ++ variants lines

/-- A playlist whose variants carry well-formed attributes, of certain lists only. -/
structure Carries (lists : Set AttributeList) (playlist : Text) (listed : List (AttributeList × Text)) : Prop where
  header : startsWith (trimStart playlist) header = true
  variants : variants ((lines playlist).map trim) = listed.map fun variant => (variant.1.text, variant.2)
  mem : ∀ variant ∈ listed, variant.1 ∈ lists

def offered (minWidth minHeight : Nat) (listed : List (AttributeList × Text)) : Prop :=
  ∃ variant ∈ listed, ∃ a ∈ variant.1.attributes, (ownPixels minWidth minHeight a).isSome = true

/-- The variants in full HD that lead to a valid destination. -/
def destinations (urls : UrlLibrary) (base : urls.Url) (listed : List (AttributeList × Text)) : List (urls.Url × Nat) :=
  listed.filterMap fun variant =>
    (variant.1.pixels 1920 1080).bind fun pixels => (destination urls base variant.2).map fun url => (url, pixels)

structure ReadAsPlayersDo (urls : UrlLibrary) (base : urls.Url) (playlist : Text) (listed : List (AttributeList × Text)) : Prop where
  fullHd : offersFullHd playlist = true ↔ offered 1920 1080 listed
  hd : offersHd playlist = true ↔ offered 1280 720 listed
  highest : highestHdRendition urls base playlist = (destinations urls base listed).argmax Prod.snd
  unoffered : offersFullHd playlist = false → highestHdRendition urls base playlist = none

/-- The texts of a list that the code may take for a resolution: what stands between two commas
of a quoted value, and the attributes that are not quoted. -/
def readings (a : Attribute) : List Text :=
  match a.value with
  | .quoted text => (text.splitOn ',').tail.dropLast
  | .bare _ => [a.text]

/-- The first such text in full HD has the pixels of the list's own resolution, and there is one in
HD where that is. -/
def Alike (list : AttributeList) : Prop :=
  advertisedPixels 1920 1080 (list.attributes.flatMap readings) = list.pixels 1920 1080 ∧
    (advertisedPixels 1280 720 (list.attributes.flatMap readings)).isSome = (list.pixels 1280 720).isSome

/-! The pieces between the commas of a tag. -/

theorem digits_of_parseU32 {text : Text} {n : Nat} (h : parseU32 text = some n) {c : Char} (hc : c ∈ text) :
    c = '+' ∨ c.isDigit = true := by
  have hdigits {digits : Text} {n : Nat} (h : parseDigits digits = some n) {c : Char} (hc : c ∈ digits) : c.isDigit = true := by
    rw [parseDigits] at h
    split at h
    · next hall => exact List.all_eq_true.mp hall.2 c hc
    · cases h
  unfold parseU32 at h
  rw [Option.filter_eq_some_iff] at h
  obtain ⟨h, -⟩ := h
  split at h
  · obtain rfl | hc := List.mem_cons.mp hc
    · exact .inl rfl
    · exact .inr (hdigits h hc)
  · exact .inr (hdigits h hc)

/-- A piece with a quote reads as nothing. -/
theorem readResolution_of_quote {piece : Text} (h : '"' ∈ piece) : readResolution piece = none := by
  have hquote : '"' ∈ trim piece := by
    obtain ⟨before, after, heq, hbefore, hafter⟩ := TextLines.trim_append piece
    rw [heq, List.mem_append, List.mem_append] at h
    obtain (h | h) | h := h
    · exact absurd (List.all_eq_true.mp hbefore _ h) (by decide)
    · exact h
    · exact absurd (List.all_eq_true.mp hafter _ h) (by decide)
  rw [Option.eq_none_iff_forall_ne_some]
  intro size hread
  simp only [readResolution, Option.bind_eq_bind, Option.bind_eq_some_iff, Prod.exists] at hread
  obtain ⟨resolution, hname, width, height, hsplit, w, hw, k, hk, -⟩ := hread
  rw [stripPrefix_eq_some.mp hname, splitOnce_eq_some hsplit] at hquote
  have hfree : '"' ∉ resolutionName := by decide
  have hmem : '"' ∈ width ∨ '"' ∈ height := by simpa [hfree] using hquote
  obtain hmem | hmem := hmem
  · exact absurd (digits_of_parseU32 hw hmem) (by decide)
  · exact absurd (digits_of_parseU32 hk hmem) (by decide)

theorem closeLast_concat (pieces : List Text) (last : Text) : closeLast (pieces ++ [last]) = pieces ++ [last ++ ['"']] := by
  induction pieces with
  | nil => rfl
  | cons piece pieces ih => rw [List.cons_append, closeLast_cons (by simp), ih, List.cons_append]

/-- Of the pieces of an attribute only those count that stand clear of the quotes. -/
theorem findSome?_pieces {β : Type*} {f : Text → Option β} (hf : ∀ piece, '"' ∈ piece → f piece = none) (a : Attribute) :
    a.pieces.findSome? f = (readings a).findSome? f := by
  obtain ⟨name, value⟩ := a
  cases value with
  | bare text => rfl
  | quoted text =>
    rw [Attribute.pieces, readings]
    dsimp only
    cases hsplit : text.splitOn ',' with
    | nil => exact absurd hsplit (List.splitOn_ne_nil _ _)
    | cons first tail =>
      rw [List.tail_cons]
      by_cases htail : tail = []
      · rw [htail]
        simp [closeLast, hf]
      · have hfirst : f (name ++ '=' :: '"' :: first) = none := hf _ (by simp)
        have hlast : f (tail.getLast htail ++ ['"']) = none := hf _ (by simp)
        rw [closeLast_cons htail]
        conv_lhs => rw [← List.dropLast_append_getLast htail, closeLast_concat]
        simp [hfirst, hlast]

theorem findSome?_flatMap_pieces {β : Type*} {f : Text → Option β} (hf : ∀ piece, '"' ∈ piece → f piece = none)
    (attributes : List Attribute) : (attributes.flatMap Attribute.pieces).findSome? f = (attributes.flatMap readings).findSome? f := by
  induction attributes with
  | nil => rfl
  | cons a attributes ih =>
    rw [List.flatMap_cons, List.flatMap_cons, List.findSome?_append, List.findSome?_append, findSome?_pieces hf, ih]

theorem advertisedPixels_text (minWidth minHeight : Nat) (list : AttributeList) :
    advertisedPixels minWidth minHeight (list.text.splitOn ',') =
      advertisedPixels minWidth minHeight (list.attributes.flatMap readings) := by
  by_cases hnil : list.attributes = []
  · rw [AttributeList.text, hnil]
    rfl
  · have hfree : ∀ piece ∈ list.attributes.flatMap Attribute.pieces, ',' ∉ piece := by
      intro piece hpiece
      obtain ⟨a, ha, hpiece⟩ := List.mem_flatMap.mp hpiece
      exact (list.wellFormed a ha).proper.comma_notMem piece hpiece
    have hsplit : list.text.splitOn ',' = list.attributes.flatMap Attribute.pieces := by
      rw [AttributeList.text, ← join_flatMap_pieces]
      exact List.splitOn_intercalate ',' hfree (flatMap_pieces_ne_nil hnil)
    rw [hsplit, advertisedPixels, advertisedPixels]
    refine findSome?_flatMap_pieces (fun piece hpiece => ?_) list.attributes
    rw [readResolution_of_quote hpiece]
    rfl

theorem any_readResolution (minWidth minHeight : Nat) (pieces : List Text) :
    (pieces.any fun piece => (readResolution piece).any (reaches minWidth minHeight)) =
      (advertisedPixels minWidth minHeight pieces).isSome := by
  rw [advertisedPixels, List.isSome_findSome?]
  congr 1
  funext piece
  rw [Option.isSome_map, Option.isSome_filter]

/-! The scans of the lines. -/

theorem isUri_of_stripPrefix {line attributes : Text} (h : stripPrefix line streamInf = some attributes) : isUri line = false := by
  rw [stripPrefix_eq_some.mp h]
  rfl

theorem uriOf_of_stripPrefix {line attributes : Text} (h : stripPrefix line streamInf = some attributes) (lines : List Text) :
    uriOf (line :: lines) = none := by
  simp [uriOf, isUri_of_stripPrefix h, h]

/-- The scan knows of a pending tag only whether it is one of those sought. -/
theorem offers_scan (minWidth minHeight : Nat) (pendingHd : Bool) (lines : List Text) :
    offersResolution.scan minWidth minHeight pendingHd lines =
      ((pendingHd && (uriOf lines).isSome) ||
        (variants lines).any fun variant => (advertisedPixels minWidth minHeight (variant.1.splitOn ',')).isSome) := by
  induction lines generalizing pendingHd with
  | nil => simp [offersResolution.scan, uriOf, variants]
  | cons line lines ih =>
    rw [offersResolution.scan, variants]
    cases htag : stripPrefix line streamInf with
    | some attributes =>
      dsimp only
      rw [ih, any_readResolution, uriOf_of_stripPrefix htag]
      cases uriOf lines <;> simp
    | none =>
      dsimp only
      rw [uriOf, htag]
      by_cases huri : isUri line = true
      · cases pendingHd <;> simp [huri, ih]
      · simp [huri, ih]

/-- The variants by the pieces of their tags. -/
def advertised (urls : UrlLibrary) (base : urls.Url) (variant : Text × Text) : Option (urls.Url × Nat) :=
  (advertisedPixels 1920 1080 (variant.1.splitOn ',')).bind fun pixels =>
    (destination urls base variant.2).map fun url => (url, pixels)

/-- The better of two variants, the first where they are alike. -/
abbrev better {υ : Type} : Option (υ × Nat) → υ × Nat → Option (υ × Nat) := List.argAux fun a b => b.2 < a.2

theorem highest_scan (urls : UrlLibrary) (base : urls.Url) (pending : Option Nat) (best : Option (urls.Url × Nat)) (lines : List Text) :
    highestHdRendition.scan urls base pending best lines =
      ((pending.bind fun pixels => (uriOf lines).bind fun uri => (destination urls base uri).map fun url => (url, pixels)).toList ++
        (variants lines).filterMap (advertised urls base)).foldl better best := by
  induction lines generalizing pending best with
  | nil => cases pending <;> rfl
  | cons line lines ih =>
    rw [highestHdRendition.scan.eq_def, variants]
    dsimp only
    cases htag : stripPrefix line streamInf with
    | some attributes =>
      dsimp only
      rw [ih, uriOf_of_stripPrefix htag]
      cases uriOf lines with
      | none => cases pending <;> simp
      | some uri =>
        have hvariant : ((advertisedPixels 1920 1080 (attributes.splitOn ',')).bind fun pixels =>
            (some uri).bind fun uri => (destination urls base uri).map fun url => (url, pixels)) =
              advertised urls base (attributes, uri) := rfl
        rw [hvariant]
        cases hadvertised : advertised urls base (attributes, uri) <;> cases pending <;> simp [hadvertised]
    | none =>
      dsimp only
      rw [uriOf, htag]
      by_cases huri : isUri line = true
      · rw [if_pos huri, if_pos huri]
        cases pending with
        | none => simp [ih]
        | some pixels =>
          cases hdestination : destination urls base line with
          | none => simp [ih, hdestination]
          | some url =>
            cases best with
            | none => simp [ih, hdestination, List.argAux]
            | some previous => by_cases hless : previous.2 < pixels <;> simp [ih, hdestination, List.argAux, hless]
      · simp [huri, ih]

section carried
variable {urls : UrlLibrary} {base : urls.Url} {lists : Set AttributeList} {playlist : Text} {listed : List (AttributeList × Text)}

theorem Carries.offers (h : Carries lists playlist listed) (minWidth minHeight : Nat) :
    offersResolution playlist minWidth minHeight = listed.any fun variant =>
      (advertisedPixels minWidth minHeight (variant.1.attributes.flatMap readings)).isSome := by
  rw [offersResolution, h.header, offers_scan, h.variants, List.any_map]
  simp only [Bool.true_and, Bool.false_and, Bool.false_or, Function.comp_def, advertisedPixels_text]

theorem Carries.highest (h : Carries lists playlist listed) :
    highestHdRendition urls base playlist = (listed.filterMap fun variant =>
      (advertisedPixels 1920 1080 (variant.1.attributes.flatMap readings)).bind fun pixels =>
        (destination urls base variant.2).map fun url => (url, pixels)).argmax Prod.snd := by
  rw [highestHdRendition, h.header, highest_scan, h.variants, List.filterMap_map]
  simp only [Function.comp_def, advertised, advertisedPixels_text, Option.bind_none, Option.toList_none, List.nil_append]
  rfl

theorem Carries.unoffered (h : Carries lists playlist listed) (hfull : offersFullHd playlist = false) :
    highestHdRendition urls base playlist = none := by
  rw [offersFullHd, h.offers, List.any_eq_false] at hfull
  rw [h.highest, List.argmax_eq_none, List.filterMap_eq_nil_iff]
  intro variant hvariant
  rw [Option.not_isSome_iff_eq_none.mp (hfull variant hvariant)]
  rfl

theorem offered_iff (minWidth minHeight : Nat) (listed : List (AttributeList × Text)) :
    offered minWidth minHeight listed ↔ ∃ variant ∈ listed, (variant.1.pixels minWidth minHeight).isSome = true := by
  simp only [offered, AttributeList.pixels, List.findSome?_isSome_iff]

theorem Carries.readAsPlayersDo (h : Carries lists playlist listed) (halike : ∀ list ∈ lists, Alike list) :
    ReadAsPlayersDo urls base playlist listed := by
  have hpixels : ∀ variant ∈ listed,
      advertisedPixels 1920 1080 (variant.1.attributes.flatMap readings) = variant.1.pixels 1920 1080 :=
    fun variant hvariant => (halike variant.1 (h.mem variant hvariant)).1
  refine ⟨?_, ?_, ?_, h.unoffered⟩
  · rw [offersFullHd, h.offers, List.any_eq_true, offered_iff]
    exact exists_congr fun variant => and_congr_right fun hvariant => by rw [hpixels variant hvariant]
  · rw [offersHd, h.offers, List.any_eq_true, offered_iff]
    exact exists_congr fun variant => and_congr_right fun hvariant => by rw [(halike variant.1 (h.mem variant hvariant)).2]
  · rw [h.highest, destinations]
    congr 1
    refine List.filterMap_congr fun variant hvariant => ?_
    rw [hpixels variant hvariant]

end carried

/-! A playlist of one variant. -/

/-- A line that a playlist can have as it is, and that is a URI. -/
structure PlainLine (line : Text) : Prop where
  uri : isUri line = true
  trimmed : trim line = line
  newline : '\n' ∉ line ∧ '\r' ∉ line

def singleVariant (list : AttributeList) (line : Text) : Text := join '\n' [header, streamInf ++ list.text, line]

theorem trim_cons_concat {a c : Char} (ha : isWhitespace a = false) (hc : isWhitespace c = false) (mid : Text) :
    trim (a :: (mid ++ [c])) = a :: (mid ++ [c]) := by
  have hstart : (a :: (mid ++ [c])).dropWhile isWhitespace = a :: (mid ++ [c]) := List.dropWhile_cons_of_neg (by simp [ha])
  rw [trim, hstart, ← List.cons_append, List.rdropWhile_concat_neg _ _ _ (by simp [hc])]

theorem WellFormed.text_eq {a : Attribute} (h : WellFormed a) : ∃ front c, a.text = front ++ [c] ∧ isWhitespace c = false := by
  obtain ⟨name, value⟩ := a
  cases value with
  | quoted text => exact ⟨name ++ '=' :: '"' :: text, '"', by simp [Attribute.text, AttributeValue.text], by decide⟩
  | bare text =>
    cases text using List.reverseRecOn with
    | nil => exact ⟨name, '=', rfl, by decide⟩
    | append_singleton front c =>
      have hfree : (front ++ [c]).any isWhitespace = false := h.value
      exact ⟨name ++ '=' :: front, c, by simp [Attribute.text, AttributeValue.text], by simpa using List.any_eq_false.mp hfree c (by simp)⟩

theorem WellFormed.newline {a : Attribute} (h : WellFormed a) : '\n' ∉ a.text ∧ '\r' ∉ a.text := by
  have hnewline := h.proper.notMem_name (c := '\n') rfl
  have hreturn := h.proper.notMem_name (c := '\r') rfl
  obtain ⟨name, value⟩ := a
  cases value with
  | quoted text =>
    have htext : '\n' ∉ text ∧ '\r' ∉ text := h.value
    simp [Attribute.text, AttributeValue.text, hnewline, hreturn, htext]
  | bare text =>
    have hfree := List.any_eq_false.mp (show text.any isWhitespace = false from h.value)
    have htext : '\n' ∉ text ∧ '\r' ∉ text := ⟨fun hmem => hfree _ hmem (by decide), fun hmem => hfree _ hmem (by decide)⟩
    simp [Attribute.text, AttributeValue.text, hnewline, hreturn, htext]

theorem AttributeList.newline (list : AttributeList) : '\n' ∉ list.text ∧ '\r' ∉ list.text := by
  have hfree : ∀ c, c ≠ ',' → (∀ a ∈ list.attributes, c ∉ a.text) → c ∉ list.text := by
    intro c hc h hmem
    obtain ⟨text, htext, hmem⟩ | rfl := mem_join hmem
    · obtain ⟨a, ha, rfl⟩ := List.mem_map.mp htext
      exact h a ha hmem
    · exact hc rfl
  exact ⟨hfree _ (by decide) fun a ha => (list.wellFormed a ha).newline.1,
    hfree _ (by decide) fun a ha => (list.wellFormed a ha).newline.2⟩

/-- A tag ends with a character that is not trimmed. -/
theorem AttributeList.trim_tag (list : AttributeList) : trim (streamInf ++ list.text) = streamInf ++ list.text := by
  have hend : list.text = [] ∨ ∃ front c, list.text = front ++ [c] ∧ isWhitespace c = false := by
    rcases List.eq_nil_or_concat list.attributes with hnil | ⟨front, a, hconcat⟩
    · left
      rw [AttributeList.text, hnil]
      rfl
    · right
      obtain ⟨text, c, htext, hc⟩ := (list.wellFormed a (by simp [hconcat])).text_eq
      rw [AttributeList.text, hconcat, List.concat_eq_append, List.map_append, List.map_singleton, htext]
      by_cases hfront : front = []
      · exact ⟨text, c, by simp [hfront, join_singleton], hc⟩
      · refine ⟨join ',' (front.map Attribute.text) ++ ',' :: text, c, ?_, hc⟩
        rw [join_concat (by simpa using hfront)]
        simp
  obtain hnil | ⟨front, c, htext, hc⟩ := hend
  · rw [hnil]
    decide
  · rw [htext]
    exact trim_cons_concat (a := '#') (by decide) hc ("EXT-X-STREAM-INF:".toList ++ front)

theorem carries_singleVariant {lists : Set AttributeList} {list : AttributeList} (hmem : list ∈ lists) {line : Text}
    (hline : PlainLine line) : Carries lists (singleVariant list line) [(list, line)] := by
  have hne : line ≠ [] := by
    rintro rfl
    exact absurd hline.uri (by decide)
  have hlines : lines (singleVariant list line) = [header, streamInf ++ list.text, line] := by
    refine TextLines.lines_join ?_ ?_
    · have hheader : '\n' ∉ header ∧ '\r' ∉ header := by decide
      have htag : '\n' ∉ streamInf ∧ '\r' ∉ streamInf := by decide
      simp [hheader, htag, list.newline, hline.newline]
    · intro last hlast
      rw [← Option.some.inj hlast]
      exact hne
  have htag : stripPrefix (streamInf ++ list.text) streamInf = some list.text := stripPrefix_eq_some.mpr rfl
  refine ⟨rfl, ?_, by simpa using hmem⟩
  rw [hlines, List.map_cons, List.map_cons, List.map_singleton, list.trim_tag, hline.trimmed]
  have hheader : stripPrefix (trim header) streamInf = none := by decide
  have hnone : stripPrefix line streamInf = none := by
    rw [Option.eq_none_iff_forall_ne_some]
    intro attributes hsome
    have hfalse := isUri_of_stripPrefix hsome
    rw [hline.uri] at hfalse
    cases hfalse
  simp [variants, hheader, htag, hnone, uriOf, hline.uri]

/-- The playlists whose variants carry certain lists are read as players do if and only if nothing
in these lists is taken for a resolution that is not. -/
theorem readAsPlayersDo_iff (urls : UrlLibrary) (lists : Set AttributeList)
    (hurl : ∃ base line, PlainLine line ∧ (destination urls base line).isSome = true) :
    (∀ playlist listed, Carries lists playlist listed → ∀ base, ReadAsPlayersDo urls base playlist listed) ↔
      ∀ list ∈ lists, Alike list := by
  refine ⟨fun h list hmem => ?_, fun h playlist listed hcarries base => hcarries.readAsPlayersDo h⟩
  obtain ⟨base, line, hline, hurl⟩ := hurl
  obtain ⟨url, hurl⟩ := Option.isSome_iff_exists.mp hurl
  have hcarries := carries_singleVariant hmem hline
  have hread := h _ _ hcarries base
  constructor
  · have hhighest := hread.highest
    rw [hcarries.highest, destinations] at hhighest
    cases hadvertised : advertisedPixels 1920 1080 (list.attributes.flatMap readings) <;>
      cases hown : list.pixels 1920 1080 <;> simp_all
  · have hhd := hread.hd
    rw [offersHd, hcarries.offers, offered_iff] at hhd
    rw [Bool.eq_iff_iff]
    simpa using hhd

/-- An https address without a port, and what the name of a file in its directory leads to. -/
structure Address where
  host : Text
  path : Text

def addresses : UrlLibrary where
  Url := Address
  join base line := some { base with path := base.path.rdropWhile (· ≠ '/') ++ line }
  scheme _ := "https".toList
  username _ := []
  password _ := none
  port _ := none
  hostStr url := some url.host

def master : addresses.Url := Address.mk "cdn.example".toList "/title/master.m3u8".toList

def line : Text := "video.m3u8".toList

theorem plainLine_line : PlainLine line := ⟨by decide, by decide, by decide⟩

/-- A name with commas, and 1280 times 720 pixels. -/
def badged : AttributeList where
  attributes := [⟨"NAME".toList, .quoted "4K, full".toList⟩, ⟨resolutionName, .bare "1280x720".toList⟩]
  wellFormed := by
    intro a ha
    obtain rfl | ha := List.mem_cons.mp ha
    · exact ⟨⟨List.all_eq_true.mp (by decide), by decide⟩, by decide⟩
    · rw [List.mem_singleton.mp ha]
      exact ⟨⟨List.all_eq_true.mp (by decide), by decide⟩, by decide⟩

theorem readAsPlayersDo_badged : ReadAsPlayersDo addresses master (singleVariant badged line) [(badged, line)] := by
  have halike : Alike badged := ⟨by decide +kernel, by decide +kernel⟩
  have hread := (readAsPlayersDo_iff addresses {badged} ⟨master, line, plainLine_line, by decide +kernel⟩).mpr fun list hlist => by
    rw [Set.mem_singleton_iff.mp hlist]
    exact halike
  exact hread _ _ (carries_singleVariant (Set.mem_singleton badged) plainLine_line) master

/-- A resolution within a name. -/
def named : AttributeList where
  attributes := [⟨"NAME".toList, .quoted "a,RESOLUTION=1920x1080,b".toList⟩]
  wellFormed := by
    intro a ha
    rw [List.mem_singleton.mp ha]
    exact ⟨⟨List.all_eq_true.mp (by decide), by decide⟩, by decide⟩

theorem name_taken_for_resolution :
    ¬∀ playlist listed, Carries Set.univ playlist listed → ∀ base, ReadAsPlayersDo addresses base playlist listed := by
  intro h
  have hread := h _ _ (carries_singleVariant (Set.mem_univ named) plainLine_line) master
  have hoffered := hread.fullHd.mp (by decide +kernel)
  rw [offered_iff] at hoffered
  exact absurd hoffered (by decide +kernel)

end StreamArena.Resolver.HlsQuality
