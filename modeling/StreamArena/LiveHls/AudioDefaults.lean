import Mathlib
import StreamArena.LiveHls.Attributes

/-! How the English audio rendition of a playlist is made the default, and where the flags of the renditions do not
come out as they should. -/
namespace StreamArena.LiveHls.AudioDefaults
open AsciiText Separated

/-- The line with both flags set. -/
def setLine (line : Text) (enabled : Bool) : Text :=
  setHlsBooleanAttribute (setHlsBooleanAttribute line Flag.default.name enabled) Flag.autoselect.name enabled

theorem comma_notMem_yesNo (enabled : Bool) : ',' ∉ yesNo enabled := by cases enabled <;> decide

theorem quote_notMem_yesNo (enabled : Bool) : '"' ∉ yesNo enabled := by cases enabled <;> decide

theorem setLine_join (enabled : Bool) {pieces : List Text} (hne : pieces ≠ []) (hfree : ∀ piece ∈ pieces, ',' ∉ piece) :
    setLine (join ',' pieces) enabled = join ',' (setFlags (yesNo enabled) pieces) := by
  have hfree' := @notMem_setPiece .default _ ',' rfl (by decide) (comma_notMem_yesNo enabled) _ hfree
  rw [setLine, setHlsBooleanAttribute_join (Flag.notMem_name rfl _) enabled hne hfree,
    setHlsBooleanAttribute_join (Flag.notMem_name rfl _) enabled (setPiece_ne_nil _ _ _) hfree', setFlags]

section line
variable {flag : Flag} {value : Text} {attributes attributes' : List Attribute} {found : Aim}

theorem comma_notMem_mediaPieces (h : Proper attributes) : ∀ piece ∈ mediaPieces attributes, ',' ∉ piece := by
  have hall : ∀ piece ∈ attributes.flatMap Attribute.pieces, ',' ∉ piece := by
    intro piece hpiece
    obtain ⟨a, ha, hpiece⟩ := List.mem_flatMap.mp hpiece
    exact (h.proper a ha).comma_notMem piece hpiece
  have htag : ',' ∉ mediaTag := by decide
  rw [mediaPieces]
  cases hpieces : attributes.flatMap Attribute.pieces with
  | nil => exact fun piece hpiece => by cases hpiece
  | cons first rest =>
    rw [hpieces] at hall
    rw [List.modifyHead_cons]
    refine List.forall_mem_cons.mpr ⟨?_, fun piece hpiece => hall piece (List.mem_cons_of_mem _ hpiece)⟩
    rw [List.mem_append]
    exact fun hmem => hmem.elim htag (hall first List.mem_cons_self)

theorem mediaPieces_ne_nil (h : attributes ≠ []) : mediaPieces attributes ≠ [] :=
  fun hnil => flatMap_pieces_ne_nil h (List.modifyHead_eq_nil_iff.mp hnil)

theorem setLine_mediaText (enabled : Bool) (hne : attributes ≠ []) (h : Proper attributes) :
    setLine (mediaText attributes) enabled = join ',' (setFlags (yesNo enabled) (mediaPieces attributes)) := by
  rw [mediaText_eq hne, setLine_join enabled (mediaPieces_ne_nil hne) (comma_notMem_mediaPieces h)]

theorem Written.ne_nil (hw : Written flag value found attributes attributes') : attributes' ≠ [] := by
  cases hw <;> simp

theorem quotes_setFlags_lt (hcomma : ',' ∉ value) (hquote : '"' ∉ value) (hne : attributes ≠ []) (h : Proper attributes)
    (haim : aim flag.name attributes = .closing) :
    quotes (setFlags value (mediaPieces attributes)) < quotes (mediaPieces attributes) := by
  rw [setFlags]
  by_cases hdefault : aim Flag.default.name attributes = .closing
  · exact (quotes_setPiece_le hquote _).trans_lt (quotes_of_aim_closing hquote h hdefault)
  · have hflag : flag = .autoselect := by
      cases flag with
      | default => exact absurd haim hdefault
      | autoselect => rfl
    have hw := @written _ value _ h hdefault
    have hnext : aim Flag.autoselect.name (write Flag.default.name value attributes) = .closing := by
      rw [aim_write hcomma default_ne_autoselect h hdefault, ← hflag, haim]
    have hlt := quotes_of_aim_closing hquote (hw.proper hcomma hquote h) hnext
    rw [← setPiece_mediaPieces hcomma hquote hne h hdefault] at hlt
    exact hlt.trans_le (quotes_setPiece_le hquote _)

/-- Where no closing quote is taken, the two writes are writes of the attributes. -/
theorem exists_written (hcomma : ',' ∉ value) (hquote : '"' ∉ value) (hne : attributes ≠ []) (h : Proper attributes)
    (haim : ∀ flag : Flag, aim flag.name attributes ≠ .closing) :
    ∃ between after, Written .default value (aim Flag.default.name attributes) attributes between ∧ Proper between ∧
      Written .autoselect value (aim Flag.autoselect.name attributes) between after ∧ Proper after ∧ after ≠ [] ∧
        setFlags value (mediaPieces attributes) = mediaPieces after := by
  have hdefault := @written _ value _ h (haim .default)
  have hproper := hdefault.proper hcomma hquote h
  have hsame := aim_write hcomma default_ne_autoselect h (haim .default)
  have hauto := @written _ value _ hproper (hsame.symm ▸ haim .autoselect)
  rw [hsame] at hauto
  refine ⟨_, _, hdefault, hproper, hauto, hauto.proper hcomma hquote hproper, hauto.ne_nil, ?_⟩
  rw [setFlags, setPiece_mediaPieces hcomma hquote hne h (haim .default),
    setPiece_mediaPieces hcomma hquote hdefault.ne_nil hproper (hsame.symm ▸ haim .autoselect)]

/-- The pieces a flag is looked for in. -/
def flagPieces (flag : Flag) (attributes : List Attribute) : List Text :=
  attributes.flatMap fun a => a.pieces.filter (names flag.name)

theorem flagPieces_append (before after : List Attribute) :
    flagPieces flag (before ++ after) = flagPieces flag before ++ flagPieces flag after := List.flatMap_append

theorem flagPieces_cons (a : Attribute) (after : List Attribute) :
    flagPieces flag (a :: after) = a.pieces.filter (names flag.name) ++ flagPieces flag after := List.flatMap_cons

theorem Attribute.pieces_write (hcomma : ',' ∉ value) (hquote : '"' ∉ value) {a : Attribute} (h : a.Proper) {text : Text}
    (haim : a.aim flag.name = .quoted text) (hne : a.name ≠ flag.name) :
    (a.write flag.name value).pieces = setPiece flag.name value a.pieces := by
  obtain ⟨-, -, ⟨more, hbefore, hafter⟩, -⟩ := write_spec hcomma hquote h haim
  rw [hafter, hbefore, setPiece_cons_of_not ((names_attribute h flag more).not.mpr hne)]

theorem Written.flagPieces_other (hcomma : ',' ∉ value) (hquote : '"' ∉ value) (h : Proper attributes)
    (hw : Written flag value found attributes attributes') {flag' : Flag} (hne : flag ≠ flag') :
    flagPieces flag' (others attributes') = flagPieces flag' (others attributes) := by
  cases hw with
  | added => rw [(Written.added attributes).others_iff hcomma hquote h |>.mpr fun _ heq => by cases heq]
  | changed before text after => rw [(Written.changed before text after).others_iff hcomma hquote h |>.mpr fun _ heq => by cases heq]
  | @quoted a text before haim after =>
    have ha : a ∈ before ++ a :: after := List.mem_append_right _ List.mem_cons_self
    have hother := h.name_ne ha haim
    obtain ⟨hname, -⟩ := Attribute.write_spec hcomma hquote (h.proper a ha) haim
    rw [others_append, others_append, others_cons_of_ne hother, others_cons_of_ne fun f => hname.symm ▸ hother f,
      flagPieces_append, flagPieces_append, flagPieces_cons, flagPieces_cons,
      Attribute.pieces_write hcomma hquote (h.proper a ha) haim (hother flag), filter_setPiece_other hne]

theorem Written.others_of_flagPieces (hcomma : ',' ∉ value) (hquote : '"' ∉ value) (h : Proper attributes)
    (hw : Written flag value found attributes attributes')
    (heq : flagPieces flag (others attributes') = flagPieces flag (others attributes)) : others attributes' = others attributes := by
  cases hw with
  | added => exact (Written.added attributes).others_iff hcomma hquote h |>.mpr fun _ heq => by cases heq
  | changed before text after =>
    exact (Written.changed before text after).others_iff hcomma hquote h |>.mpr fun _ heq => by cases heq
  | @quoted a text before haim after =>
    have ha : a ∈ before ++ a :: after := List.mem_append_right _ List.mem_cons_self
    have hother := h.name_ne ha haim
    obtain ⟨hname, hproper, -⟩ := Attribute.write_spec hcomma hquote (h.proper a ha) haim
    have hpieces := Attribute.pieces_write hcomma hquote (h.proper a ha) haim (hother flag)
    rw [others_append, others_append, others_cons_of_ne hother, others_cons_of_ne fun f => hname.symm ▸ hother f] at heq ⊢
    rw [flagPieces_append, flagPieces_append, flagPieces_cons, flagPieces_cons, hpieces] at heq
    have hsame := filter_setPiece_eq_iff.mp (List.append_cancel_right (List.append_cancel_left heq))
    have htext : (a.write flag.name value).text ++ [] = a.text ++ [] := by
      rw [List.append_nil, List.append_nil, ← Attribute.join_pieces, hpieces, hsame, Attribute.join_pieces]
    rw [(text_injective (.inl rfl) (.inl rfl) hproper (h.proper a ha) htext).1]

theorem count_join (pieces : List Text) : (join ',' pieces).count '"' = quotes pieces := by
  induction pieces with
  | nil => rfl
  | cons piece pieces ih =>
    by_cases hlast : pieces = []
    · rw [hlast, join_singleton, quotes_cons]
      rfl
    · rw [join_cons piece hlast, List.count_append, List.count_cons_of_ne (by decide), ih, quotes_cons]

theorem count_mediaText (attributes : List Attribute) :
    (mediaText attributes).count '"' = quotes (attributes.map Attribute.text) := by
  have htag : mediaTag.count '"' = 0 := by decide
  rw [mediaText, List.count_append, htag, Nat.zero_add, count_join]

theorem quotes_others_le (attributes : List Attribute) :
    quotes ((others attributes).map Attribute.text) ≤ quotes (attributes.map Attribute.text) :=
  ((List.filter_sublist.map _).map _).sum_le_sum fun _ _ => Nat.zero_le _

/-- The flags have no quotes. -/
theorem Proper.quotes_others (h : Proper attributes) :
    quotes ((others attributes).map Attribute.text) = quotes (attributes.map Attribute.text) := by
  induction attributes with
  | nil => rfl
  | cons a attributes ih =>
    rw [List.map_cons, quotes_cons, ← ih h.tail]
    by_cases hflag : ∃ flag : Flag, a.name = flag.name
    · obtain ⟨flag, hname⟩ := hflag
      obtain ⟨text, htext⟩ := h.flags a List.mem_cons_self flag hname
      have ha : a = ⟨flag.name, .bare text⟩ := by rw [← hname, ← htext]
      have hproper := h.proper a List.mem_cons_self
      have hnone : '"' ∉ a.text := by
        have hvalue := hproper.value
        rw [htext] at hvalue
        simp [Attribute.text, htext, AttributeValue.text, hproper.notMem_name (c := '"') rfl, hvalue.1]
      rw [List.count_eq_zero.mpr hnone, Nat.zero_add, ha, others_cons_flag]
    · rw [not_exists] at hflag
      rw [others_cons_of_ne hflag, List.map_cons, quotes_cons]

/-- The line has the other attributes it had and, where English audio is there, each flag once with its value. -/
def Adjusted (english : Bool) (wanted : Text) (attributes : List Attribute) (line : Text) : Prop :=
  ∃ after : List Attribute, (∀ a ∈ after, a.Proper) ∧ line = mediaText after ∧ others after = others attributes ∧
    (english = true → ∀ flag : Flag, named flag after = [⟨flag.name, .bare wanted⟩])

/-- When the search for a flag ends well: not behind the last comma of a quoted value, before another comma of one only
where the value reads as it is written, and otherwise at the flag if there is one. -/
structure Meets (english : Bool) (wanted value : Text) (attributes : List Attribute) (flag : Flag) : Prop where
  opens : aim flag.name attributes ≠ .closing
  reads : ∀ text, aim flag.name attributes = .quoted text → text = value
  lands : english = true → Lands flag value wanted attributes (aim flag.name attributes)

theorem lands_congr {wanted : Text} (h : named flag attributes' = named flag attributes) :
    Lands flag value wanted attributes' found ↔ Lands flag value wanted attributes found := by
  have hmem (list : List Attribute) : (⟨flag.name, .bare wanted⟩ : Attribute) ∈ list ↔ ⟨flag.name, .bare wanted⟩ ∈ named flag list := by
    rw [named, List.mem_filter, beq_self_eq_true, and_iff_left rfl]
  cases found with
  | missed => rw [Lands, Lands, h]
  | here => exact Iff.rfl
  | quoted text => rw [Lands, Lands, hmem attributes', hmem attributes, h]
  | closing => exact Iff.rfl

/-- The flags of a rendition's line are set right exactly when both searches end well. -/
theorem adjusted_iff {english enabled : Bool} {wanted : Text} (hne : attributes ≠ []) (h : Proper attributes)
    (hunique : ∀ flag, (named flag attributes).length ≤ 1) :
    Adjusted english wanted attributes (setLine (mediaText attributes) enabled) ↔
      ∀ flag, Meets english wanted (yesNo enabled) attributes flag := by
  have hcomma := comma_notMem_yesNo enabled
  have hquote := quote_notMem_yesNo enabled
  rw [setLine_mediaText enabled hne h]
  by_cases hclosing : ∃ flag : Flag, aim flag.name attributes = .closing
  · obtain ⟨flag, haim⟩ := hclosing
    refine iff_of_false ?_ fun hmeets => (hmeets flag).opens haim
    rintro ⟨after, -, htext, hothers, -⟩
    -- the line has fewer quotes than the other attributes
    have hlt := quotes_setFlags_lt hcomma hquote hne h haim
    rw [← count_join, htext, ← count_join, ← mediaText_eq hne, count_mediaText, count_mediaText, ← h.quotes_others, ← hothers] at hlt
    exact absurd (quotes_others_le after) (by omega)
  · rw [not_exists] at hclosing
    obtain ⟨between, after, hdefault, hbetween, hauto, hafter, hsome, hpieces⟩ := exists_written hcomma hquote hne h hclosing
    have hnamed : named .autoselect between = named .autoselect attributes :=
      hdefault.named_other hcomma hquote h default_ne_autoselect
    have hnamed' : named .default after = named .default between :=
      hauto.named_other hcomma hquote hbetween default_ne_autoselect.symm
    have hlands : (∀ flag : Flag, named flag after = [⟨flag.name, .bare wanted⟩]) ↔
        ∀ flag : Flag, Lands flag (yesNo enabled) wanted attributes (aim flag.name attributes) := by
      have hboth : ∀ flag : Flag, named flag after = [⟨flag.name, .bare wanted⟩] ↔
          Lands flag (yesNo enabled) wanted attributes (aim flag.name attributes) := by
        intro flag
        cases flag with
        | default => rw [hnamed', hdefault.named_iff hcomma hquote h (hunique .default)]
        | autoselect => rw [hauto.named_iff hcomma hquote hbetween (hnamed ▸ hunique .autoselect), lands_congr hnamed]
      exact forall_congr' hboth
    have hothers : others after = others attributes ↔
        ∀ flag : Flag, ∀ text, aim flag.name attributes = .quoted text → text = yesNo enabled := by
      constructor
      · intro heq
        have hfirst : others between = others attributes := by
          refine hdefault.others_of_flagPieces hcomma hquote h ?_
          rw [← heq, hauto.flagPieces_other hcomma hquote hbetween default_ne_autoselect.symm]
        intro flag
        cases flag with
        | default => exact (hdefault.others_iff hcomma hquote h).mp hfirst
        | autoselect => exact (hauto.others_iff hcomma hquote hbetween).mp (heq.trans hfirst.symm)
      · intro hreads
        rw [(hauto.others_iff hcomma hquote hbetween).mpr (hreads .autoselect),
          (hdefault.others_iff hcomma hquote h).mpr (hreads .default)]
    rw [hpieces, ← mediaText_eq hsome]
    constructor
    · rintro ⟨after', hproper, htext, hsame, hflags⟩
      obtain rfl := mediaText_injective hafter.proper hproper htext
      exact fun flag => ⟨hclosing flag, hothers.mp hsame flag, fun henglish => hlands.mp (hflags henglish) flag⟩
    · intro hmeets
      exact ⟨after, hafter.proper, rfl, hothers.mpr fun flag => (hmeets flag).reads,
        fun henglish => hlands.mpr fun flag => (hmeets flag).lands henglish⟩

end line

/-! Whole playlists. -/

/-- An `EXT-X-MEDIA` tag as the format has it: no attribute twice, and the flags YES or NO. -/
structure Media where
  attributes : List Attribute
  ne_nil : attributes ≠ []
  proper : ∀ a ∈ attributes, a.Proper
  flags : ∀ a ∈ attributes, ∀ flag : Flag, a.name = flag.name → ∃ enabled, a.value = .bare (yesNo enabled)
  unique : (attributes.map Attribute.name).Nodup

def AttributeValue.content : AttributeValue → Text
  | quoted text => text
  | bare text => text

/-- The language tags of English, with or without a region. -/
def isEnglishTag (language : Text) : Bool :=
  let lower := toAsciiLowercase language
  lower == "en".toList || lower == "eng".toList || startsWith lower "en-".toList || startsWith lower "eng-".toList

def Attribute.isEnglish (a : Attribute) : Bool :=
  a.name == "LANGUAGE".toList && isEnglishTag a.value.content ||
    a.name == "NAME".toList && toAsciiLowercase a.value.content == "english".toList

def audioType : Attribute := ⟨"TYPE".toList, .bare "AUDIO".toList⟩

def Media.isAudio (m : Media) : Bool := m.attributes.contains audioType

def Media.isEnglish (m : Media) : Bool := m.attributes.any Attribute.isEnglish

/-- A line of a playlist: such a tag, or text that is none. -/
inductive Line where
  | media (m : Media)
  | other (text : Text) (h : startsWith text mediaTag = false)

def Line.text : Line → Text
  | media m => mediaText m.attributes
  | other text _ => text

def Line.isEnglishAudio : Line → Bool
  | media m => m.isAudio && m.isEnglish
  | other _ _ => false

def hasEnglishAudio (lines : List Line) : Bool := lines.any Line.isEnglishAudio

/-- What a line has to become: the flags of an audio rendition are set, and nothing else changes. -/
def Becomes (english : Bool) (text : Text) : Line → Prop
  | .media m =>
    if m.isAudio then Adjusted english (yesNo m.isEnglish) m.attributes text else text = mediaText m.attributes
  | .other line _ => text = line

structure Preferred (lines : List Line) (out : List Text) : Prop where
  lines : List.Forall₂ (fun line text => Becomes (hasEnglishAudio lines) text line) lines out
  again : preferEnglishHlsAudioDefaults out = out

/-- The code sees English audio in the text of the lines. -/
def seesEnglishAudio (lines : List Line) : Bool :=
  lines.any fun line => hlsLineIsAudioMedia line.text && hlsMediaLineLooksEnglish line.text

/-- A line taken for an audio rendition that is none has both flags already, as they are set. -/
def Spared (line : Text) : Prop :=
  hlsLineIsAudioMedia line = true → ∀ flag, Reads flag (yesNo (hlsMediaLineLooksEnglish line)) (line.splitOn ',')

def LineMeets (english : Bool) : Line → Prop
  | .media m =>
    if m.isAudio then
      ∀ flag, Meets english (yesNo m.isEnglish) (yesNo (hlsMediaLineLooksEnglish (mediaText m.attributes))) m.attributes flag
    else Spared (mediaText m.attributes)
  | .other line _ => Spared line

/-- When the playlist comes out as it should. Where the code sees no English audio it changes nothing, and the flags
must be right already if there is some. -/
def Unharmed (lines : List Line) : Prop :=
  if seesEnglishAudio lines then ∀ line ∈ lines, LineMeets (hasEnglishAudio lines) line
  else hasEnglishAudio lines = true → ∀ m, .media m ∈ lines → m.isAudio = true →
    ∀ flag : Flag, ⟨flag.name, .bare (yesNo m.isEnglish)⟩ ∈ m.attributes

theorem Media.toProper (m : Media) : Proper m.attributes where
  proper := m.proper
  flags := fun a ha flag hname => by
    obtain ⟨enabled, hvalue⟩ := m.flags a ha flag hname
    exact ⟨_, hvalue⟩

theorem Media.eq_of_name (m : Media) {a b : Attribute} (ha : a ∈ m.attributes) (hb : b ∈ m.attributes) (h : a.name = b.name) : a = b :=
  List.inj_on_of_nodup_map m.unique ha hb h

theorem Media.named_le (m : Media) (flag : Flag) : (named flag m.attributes).length ≤ 1 := by
  have hnodup : (named flag m.attributes).Nodup := m.unique.of_map.filter _
  cases hnamed : named flag m.attributes with
  | nil => exact Nat.zero_le 1
  | cons a rest =>
    cases rest with
    | nil => exact Nat.le_refl 1
    | cons b rest =>
      have hmem (c) (hc : c ∈ named flag m.attributes) : c ∈ m.attributes ∧ c.name = flag.name :=
        (List.mem_filter.mp hc).imp_right fun hname => by simpa using hname
      obtain ⟨ha, hname⟩ := hmem a (hnamed ▸ List.mem_cons_self)
      obtain ⟨hb, hname'⟩ := hmem b (hnamed ▸ List.mem_cons_of_mem _ List.mem_cons_self)
      rw [hnamed, m.eq_of_name ha hb (hname.trans hname'.symm)] at hnodup
      exact absurd List.mem_cons_self (List.nodup_cons.mp hnodup).1

theorem preferEnglishHlsAudioDefault_eq (line : Text) :
    preferEnglishHlsAudioDefault line =
      if hlsLineIsAudioMedia line then setLine line (hlsMediaLineLooksEnglish line) else line := by
  rw [preferEnglishHlsAudioDefault]
  cases hlsLineIsAudioMedia line <;> rfl

theorem setLine_eq_self_iff (line : Text) (enabled : Bool) :
    setLine line enabled = line ↔ ∀ flag, Reads flag (yesNo enabled) (line.splitOn ',') := by
  have hjoin : join ',' (line.splitOn ',') = line := List.intercalate_splitOn ','
  have hfree : ∀ piece ∈ line.splitOn ',', ',' ∉ piece := fun piece hpiece => notMem_of_mem_splitOn hpiece
  have hset : ∀ piece ∈ setFlags (yesNo enabled) (line.splitOn ','), ',' ∉ piece :=
    notMem_setPiece rfl (by decide) (comma_notMem_yesNo enabled)
      (notMem_setPiece rfl (by decide) (comma_notMem_yesNo enabled) hfree)
  have hline : setLine line enabled = join ',' (setFlags (yesNo enabled) (line.splitOn ',')) := by
    rw [← setLine_join enabled (List.splitOn_ne_nil _ _) hfree, hjoin]
  rw [← setFlags_eq_self_iff, hline]
  constructor
  · intro heq
    exact join_injective (setPiece_ne_nil _ _ _) (List.splitOn_ne_nil _ _) hset hfree (heq.trans hjoin.symm)
  · intro heq
    rw [heq, hjoin]

/-- The code takes every audio rendition for one. -/
theorem hlsLineIsAudioMedia_of_isAudio {m : Media} (h : m.isAudio = true) : hlsLineIsAudioMedia (mediaText m.attributes) = true := by
  have hmem : audioType ∈ m.attributes := by simpa [Media.isAudio] using h
  have hsplit : toAsciiLowercase (mediaText m.attributes) =
      "#ext-x-media:".toList ++ toAsciiLowercase (join ',' (m.attributes.map Attribute.text)) := by
    have htag : toAsciiLowercase mediaTag = "#ext-x-media:".toList := by decide
    rw [mediaText, toAsciiLowercase_append, htag]
  have hinfix : audioType.text <:+: join ',' (m.attributes.map Attribute.text) := infix_join (List.mem_map_of_mem hmem)
  have hcontains : "type=audio".toList <:+: toAsciiLowercase (join ',' (m.attributes.map Attribute.text)) := by
    have hlower : toAsciiLowercase audioType.text = "type=audio".toList := by decide
    rw [← hlower]
    exact hinfix.map _
  rw [hlsLineIsAudioMedia, Bool.and_eq_true, startsWith_iff, contains_iff_infix, hsplit]
  exact ⟨List.prefix_append _ _, hcontains.trans (List.suffix_append _ _).isInfix⟩

section marks
variable {flag : Flag} {mark : Text}

/-- A mark by which the code judges a line: no comma is in it, and no flag has it. -/
structure Mark (mark : Text) : Prop where
  comma : ',' ∉ mark
  flag : ∀ (flag : Flag) (enabled : Bool), contains (toAsciiLowercase (flag.name ++ '=' :: yesNo enabled)) mark = false

def holds (mark piece : Text) : Bool := contains (toAsciiLowercase piece) mark

/-- A piece that reads a flag with YES or NO has no mark. -/
theorem Mark.not_holds (h : Mark mark) {piece : Text} (hname : names flag.name piece = true) {enabled : Bool}
    (hvalue : piece.drop (flag.name.length + 1) = yesNo enabled) : holds mark piece = false := by
  obtain ⟨rest, hrest⟩ := startsWith_iff.mp hname
  have hlower (s : Text) : toAsciiLowercase (toAsciiUppercase s) = toAsciiLowercase s := by
    simp [toAsciiLowercase, toAsciiUppercase, Function.comp_def]
  have hupper : toAsciiUppercase (piece.take (flag.name.length + 1)) = flag.name ++ ['='] := by
    rw [toAsciiUppercase, List.map_take, ← toAsciiUppercase, ← hrest, List.take_left' (by simp)]
  have hpiece : toAsciiLowercase piece = toAsciiLowercase (flag.name ++ '=' :: yesNo enabled) := by
    calc toAsciiLowercase piece
        = toAsciiLowercase (piece.take (flag.name.length + 1)) ++ toAsciiLowercase (yesNo enabled) := by
          rw [← toAsciiLowercase_append, ← hvalue, List.take_append_drop]
      _ = toAsciiLowercase (flag.name ++ ['=']) ++ toAsciiLowercase (yesNo enabled) := by rw [← hlower, hupper]
      _ = toAsciiLowercase (flag.name ++ '=' :: yesNo enabled) := by
          rw [← toAsciiLowercase_append, List.append_assoc, List.singleton_append]
  rw [holds, hpiece, h.flag]

/-- The search for a flag ends at a piece that reads YES or NO. -/
def Tidy (flag : Flag) (pieces : List Text) : Prop :=
  ∀ piece, pieces.find? (names flag.name) = some piece → ∃ enabled, piece.drop (flag.name.length + 1) = yesNo enabled

theorem any_setPiece (h : Mark mark) (enabled : Bool) {pieces : List Text} (htidy : Tidy flag pieces) :
    (setPiece flag.name (yesNo enabled) pieces).any (holds mark) = pieces.any (holds mark) := by
  induction pieces with
  | nil =>
    have hnew : holds mark (flag.name ++ '=' :: yesNo enabled) = false := h.flag flag enabled
    rw [setPiece, List.any_cons, hnew]
    rfl
  | cons first pieces ih =>
    by_cases hfirst : names flag.name first = true
    · obtain ⟨old, hold⟩ := htidy first (List.find?_cons_of_pos hfirst)
      have hlength : (first.take (flag.name.length + 1)).length = flag.name.length + 1 :=
        List.length_take_of_le (length_of_names hfirst)
      rw [setPiece, if_pos hfirst, List.any_cons, List.any_cons, h.not_holds hfirst hold,
        h.not_holds (names_written hfirst) (List.drop_left' hlength)]
    · rw [setPiece_cons_of_not hfirst, List.any_cons, List.any_cons,
        ih fun piece hpiece => htidy piece (by rwa [List.find?_cons_of_neg hfirst])]

theorem any_setFlags (h : Mark mark) (enabled : Bool) {pieces : List Text} (htidy : ∀ flag, Tidy flag pieces) :
    (setFlags (yesNo enabled) pieces).any (holds mark) = pieces.any (holds mark) := by
  have hauto : Tidy .autoselect (setPiece Flag.default.name (yesNo enabled) pieces) := by
    intro piece hpiece
    rw [find?_setPiece_other default_ne_autoselect] at hpiece
    exact htidy .autoselect piece hpiece
  rw [setFlags, any_setPiece h enabled hauto, any_setPiece h enabled (htidy .default)]

theorem contains_join (h : Mark mark) {pieces : List Text} (hne : pieces ≠ []) :
    contains (toAsciiLowercase (join ',' pieces)) mark = pieces.any (holds mark) := by
  have hlower : toAsciiLowercase (join ',' pieces) = join ',' (pieces.map toAsciiLowercase) := map_join rfl pieces
  rw [Bool.eq_iff_iff, contains_iff_infix, hlower, infix_join_iff h.comma (by simpa using hne), List.any_eq_true]
  simp only [List.mem_map, exists_exists_and_eq_and, holds, contains_iff_infix]

end marks

def audioMark : Text := "type=audio".toList

def englishMarks : List Text :=
  ["language=\"eng\"".toList, "language=eng".toList, "language=\"en\"".toList, "language=en".toList,
    "name=\"english\"".toList, "name=english".toList]

theorem mark_audio : Mark audioMark where
  comma := by decide
  flag := fun flag enabled => by cases flag <;> cases enabled <;> decide

theorem mark_english : ∀ mark ∈ englishMarks, Mark mark := by
  have hcomma : englishMarks.all (fun mark => !mark.contains ',') = true := by decide
  have hflag (flag : Flag) (enabled : Bool) :
      englishMarks.all (fun mark => !contains (toAsciiLowercase (flag.name ++ '=' :: yesNo enabled)) mark) = true := by
    cases flag <;> cases enabled <;> decide
  intro mark hmark
  constructor
  · simpa using List.all_eq_true.mp hcomma mark hmark
  · intro flag enabled
    simpa using List.all_eq_true.mp (hflag flag enabled) mark hmark

theorem looksEnglish_eq (line : Text) :
    hlsMediaLineLooksEnglish line = englishMarks.any (contains (toAsciiLowercase line)) := by
  simp only [hlsMediaLineLooksEnglish, englishMarks, List.any_cons, List.any_nil, Bool.or_false, Bool.or_assoc]

section media
variable {m : Media} {flag : Flag} {english enabled : Bool} {wanted : Text}

theorem Written.of_missed {value : Text} {attributes attributes' : List Attribute}
    (h : Written flag value .missed attributes attributes') : attributes' = attributes ++ [⟨flag.name, .bare value⟩] := by
  cases h
  rfl

theorem Written.of_here {value : Text} {attributes attributes' : List Attribute}
    (h : Written flag value .here attributes attributes') : ∃ before text after,
      attributes = before ++ ⟨flag.name, .bare text⟩ :: after ∧ attributes' = before ++ ⟨flag.name, .bare value⟩ :: after := by
  cases h with
  | changed before text after => exact ⟨before, text, after, rfl, rfl⟩

/-- A quoted value that reads as it is written stays. -/
theorem Written.of_quoted {value : Text} {attributes attributes' : List Attribute} (hcomma : ',' ∉ value) (hquote : '"' ∉ value)
    (hproper : Proper attributes) (h : Written flag value (.quoted value) attributes attributes') : attributes' = attributes := by
  cases h with
  | @quoted a _ before haim after =>
    have ha : a ∈ before ++ a :: after := List.mem_append_right _ List.mem_cons_self
    obtain ⟨-, -, -, -, hsame⟩ := Attribute.write_spec hcomma hquote (hproper.proper a ha) haim
    rw [hsame.mpr rfl]

theorem length_mediaPieces (attributes : List Attribute) :
    (mediaPieces attributes).length = (attributes.flatMap Attribute.pieces).length := List.length_modifyHead ..

/-- Where the search for a flag ends well, it ends at YES or NO. -/
theorem tidy_of_meets (h : Meets english wanted (yesNo enabled) m.attributes flag) : Tidy flag (mediaPieces m.attributes) := by
  have hproper := m.toProper
  intro piece hpiece
  have hwrite (b : Bool) := setPiece_mediaPieces (comma_notMem_yesNo b) (quote_notMem_yesNo b) m.ne_nil hproper h.opens
  -- a write that changes no attribute shows what the search reads
  have hreads (b : Bool) (hsame : write flag.name (yesNo b) m.attributes = m.attributes) :
      ∃ enabled, piece.drop (flag.name.length + 1) = yesNo enabled := by
    have hkept := hwrite b
    rw [hsame, setPiece_eq_self_iff] at hkept
    obtain ⟨first, hfirst, hvalue⟩ := hkept
    rw [hpiece] at hfirst
    exact ⟨b, by rw [Option.some.inj hfirst, hvalue]⟩
  have hwritten (b : Bool) := @written flag (yesNo b) _ hproper h.opens
  cases haim : aim flag.name m.attributes with
  | missed =>
    -- then the write would add a piece
    have hlength := congrArg List.length (hwrite true)
    have hadded := (haim ▸ hwritten true).of_missed
    rw [length_setPiece_of_find? hpiece, hadded, length_mediaPieces, length_mediaPieces, List.flatMap_append, List.length_append,
      List.flatMap_singleton] at hlength
    have hpos := List.length_pos_iff.mpr (Attribute.pieces_ne_nil ⟨flag.name, .bare (yesNo true)⟩)
    omega
  | here =>
    obtain ⟨before, text, after, hlist, -⟩ := (haim ▸ hwritten true).of_here
    have hmem : (⟨flag.name, .bare text⟩ : Attribute) ∈ m.attributes := by
      rw [hlist]
      exact List.mem_append_right _ List.mem_cons_self
    obtain ⟨b, hvalue⟩ := m.flags _ hmem flag rfl
    obtain ⟨before', text', after', hlist', hwrite'⟩ := (haim ▸ hwritten b).of_here
    have hmem' : (⟨flag.name, .bare text'⟩ : Attribute) ∈ m.attributes := by
      rw [hlist']
      exact List.mem_append_right _ List.mem_cons_self
    refine hreads b ?_
    rw [hwrite', ← hvalue, m.eq_of_name hmem hmem' rfl]
    exact hlist'.symm
  | quoted text =>
    have htext := h.reads text haim
    rw [htext] at haim
    exact hreads enabled ((haim ▸ hwritten enabled).of_quoted (comma_notMem_yesNo _) (quote_notMem_yesNo _) hproper)
  | closing => exact absurd haim h.opens

end media

theorem setLine_idem (line : Text) (enabled : Bool) : setLine (setLine line enabled) enabled = setLine line enabled := by
  have hjoin : join ',' (line.splitOn ',') = line := List.intercalate_splitOn ','
  have hfree : ∀ piece ∈ line.splitOn ',', ',' ∉ piece := fun piece hpiece => notMem_of_mem_splitOn hpiece
  have hset : ∀ piece ∈ setFlags (yesNo enabled) (line.splitOn ','), ',' ∉ piece :=
    notMem_setPiece rfl (by decide) (comma_notMem_yesNo enabled)
      (notMem_setPiece rfl (by decide) (comma_notMem_yesNo enabled) hfree)
  have hline := setLine_join enabled (List.splitOn_ne_nil _ _) hfree
  rw [hjoin] at hline
  rw [hline, setLine_join enabled (setFlags_ne_nil _ _) hset, setFlags_idem]

/-- A line that the code has gone over is judged as before. -/
structure Stable (line : Text) : Prop where
  audio : hlsLineIsAudioMedia (preferEnglishHlsAudioDefault line) = hlsLineIsAudioMedia line
  english : hlsMediaLineLooksEnglish (preferEnglishHlsAudioDefault line) = hlsMediaLineLooksEnglish line

theorem Stable.again {line : Text} (h : Stable line) :
    preferEnglishHlsAudioDefault (preferEnglishHlsAudioDefault line) = preferEnglishHlsAudioDefault line := by
  rw [preferEnglishHlsAudioDefault_eq (preferEnglishHlsAudioDefault line), h.audio, h.english, preferEnglishHlsAudioDefault_eq]
  split
  · exact setLine_idem line _
  · rfl

theorem Spared.eq {line : Text} (h : Spared line) : preferEnglishHlsAudioDefault line = line := by
  rw [preferEnglishHlsAudioDefault_eq]
  split
  next haudio => exact (setLine_eq_self_iff line _).mpr (h haudio)
  next => rfl

theorem spared_iff (line : Text) : preferEnglishHlsAudioDefault line = line ↔ Spared line := by
  refine ⟨fun heq haudio => ?_, Spared.eq⟩
  rw [preferEnglishHlsAudioDefault_eq, if_pos haudio] at heq
  exact (setLine_eq_self_iff line _).mp heq

theorem Media.eq_setLine {m : Media} (haudio : m.isAudio = true) :
    preferEnglishHlsAudioDefault (mediaText m.attributes) =
      setLine (mediaText m.attributes) (hlsMediaLineLooksEnglish (mediaText m.attributes)) := by
  rw [preferEnglishHlsAudioDefault_eq, if_pos (hlsLineIsAudioMedia_of_isAudio haudio)]

/-- In a playlist where the code sees English audio, a line becomes what it has to exactly when it meets its condition. -/
theorem becomes_iff (english : Bool) (line : Line) :
    Becomes english (preferEnglishHlsAudioDefault line.text) line ↔ LineMeets english line := by
  cases line with
  | media m =>
    rw [Becomes, LineMeets]
    by_cases haudio : m.isAudio = true
    · rw [if_pos haudio, if_pos haudio, Line.text, Media.eq_setLine haudio, adjusted_iff m.ne_nil m.toProper m.named_le]
    · rw [if_neg haudio, if_neg haudio]
      exact spared_iff _
  | other text h => exact spared_iff text

theorem stable_of_lineMeets {english : Bool} {line : Line} (h : LineMeets english line) : Stable line.text := by
  have hspared {text : Text} (hsame : Spared text) : Stable text := by
    constructor <;> rw [hsame.eq]
  cases line with
  | other text hother => exact hspared h
  | media m =>
    rw [LineMeets] at h
    split at h
    next haudio =>
      have hset := Media.eq_setLine haudio
      have hproper := m.toProper
      have htidy (flag) := tidy_of_meets (h flag)
      have hne := mediaPieces_ne_nil m.ne_nil
      rw [setLine_mediaText _ m.ne_nil hproper] at hset
      have hmark {mark : Text} (hmark : Mark mark) :
          contains (toAsciiLowercase (preferEnglishHlsAudioDefault (mediaText m.attributes))) mark =
            contains (toAsciiLowercase (mediaText m.attributes)) mark := by
        rw [hset, mediaText_eq m.ne_nil, contains_join hmark (setFlags_ne_nil _ _), contains_join hmark hne,
          any_setFlags hmark _ htidy]
      have hstart : startsWith (toAsciiLowercase (preferEnglishHlsAudioDefault (mediaText m.attributes))) "#ext-x-media:".toList =
          true := by
        obtain ⟨between, after, -, -, -, -, hafter, hpieces⟩ := exists_written (comma_notMem_yesNo _) (quote_notMem_yesNo _) m.ne_nil
          hproper fun flag => (h flag).opens
        have htag : toAsciiLowercase mediaTag = "#ext-x-media:".toList := by decide
        rw [hset, hpieces, ← mediaText_eq hafter, startsWith_iff, mediaText, toAsciiLowercase_append, htag]
        exact List.prefix_append _ _
      constructor
      · have hwas := hlsLineIsAudioMedia_of_isAudio haudio
        rw [Line.text, hwas]
        rw [hlsLineIsAudioMedia, Bool.and_eq_true] at hwas ⊢
        exact ⟨hstart, (hmark mark_audio).trans hwas.2⟩
      · rw [Line.text, looksEnglish_eq, looksEnglish_eq, Bool.eq_iff_iff, List.any_eq_true, List.any_eq_true]
        exact exists_congr fun mark => and_congr_right fun hmem => by rw [hmark (mark_english mark hmem)]
    next => exact hspared h

theorem sees_eq (lines : List Line) :
    ((lines.map Line.text).any fun line => hlsLineIsAudioMedia line && hlsMediaLineLooksEnglish line) = seesEnglishAudio lines := by
  rw [List.any_map]
  rfl

theorem prefer_of_sees {lines : List Line} (h : seesEnglishAudio lines = true) :
    preferEnglishHlsAudioDefaults (lines.map Line.text) = lines.map fun line => preferEnglishHlsAudioDefault line.text := by
  rw [preferEnglishHlsAudioDefaults, sees_eq, if_pos h, List.map_map]
  rfl

theorem prefer_of_not_sees {lines : List Line} (h : seesEnglishAudio lines = false) :
    preferEnglishHlsAudioDefaults (lines.map Line.text) = lines.map Line.text := by
  rw [preferEnglishHlsAudioDefaults, sees_eq, if_neg (by simp [h])]

/-- A line that is not gone over is right when its flags are. -/
theorem becomes_self_iff (english : Bool) (line : Line) :
    Becomes english line.text line ↔ (english = true → ∀ m, line = .media m → m.isAudio = true →
      ∀ flag : Flag, ⟨flag.name, .bare (yesNo m.isEnglish)⟩ ∈ m.attributes) := by
  cases line with
  | other text h => exact iff_of_true rfl fun _ m hm => by cases hm
  | media m =>
    rw [Becomes, Line.text]
    split
    next haudio =>
      constructor
      · rintro ⟨after, hproper, htext, -, hflags⟩ henglish m' hm' - flag
        obtain rfl := Line.media.inj hm'
        obtain rfl := mediaText_injective m.proper hproper htext
        have hmem : (⟨flag.name, .bare (yesNo m.isEnglish)⟩ : Attribute) ∈ named flag m.attributes := by
          rw [hflags henglish flag]
          exact List.mem_singleton_self _
        exact (List.mem_filter.mp hmem).1
      · intro h
        refine ⟨m.attributes, m.proper, rfl, rfl, fun henglish flag => ?_⟩
        have hmem : (⟨flag.name, .bare (yesNo m.isEnglish)⟩ : Attribute) ∈ named flag m.attributes :=
          List.mem_filter.mpr ⟨h henglish m rfl haudio flag, by simp⟩
        obtain ⟨a, ha⟩ := List.length_eq_one_iff.mp (Nat.le_antisymm (m.named_le flag) (List.length_pos_of_mem hmem))
        rw [ha] at hmem ⊢
        rw [List.mem_singleton.mp hmem]
    next haudio =>
      refine iff_of_true rfl fun _ m' hm' haudio' => ?_
      obtain rfl := Line.media.inj hm'
      exact absurd haudio' haudio

/-- A playlist that the code has gone over line by line stays as it is. -/
theorem again_of_stable {lines : List Line} (hsees : seesEnglishAudio lines = true) (h : ∀ line ∈ lines, Stable line.text) :
    preferEnglishHlsAudioDefaults (lines.map fun line => preferEnglishHlsAudioDefault line.text) =
      lines.map fun line => preferEnglishHlsAudioDefault line.text := by
  have hsees' : ((lines.map fun line => preferEnglishHlsAudioDefault line.text).any fun line =>
      hlsLineIsAudioMedia line && hlsMediaLineLooksEnglish line) = true := by
    obtain ⟨line, hline, hboth⟩ := List.any_eq_true.mp hsees
    refine List.any_eq_true.mpr ⟨_, List.mem_map_of_mem hline, ?_⟩
    rw [(h line hline).audio, (h line hline).english]
    exact hboth
  rw [preferEnglishHlsAudioDefaults, if_pos hsees', List.map_map]
  exact List.map_congr_left fun line hline => (h line hline).again

/-- The flags of every audio rendition come out right, and nothing else changes, exactly when the search for each flag
ends at it, or nowhere for a flag that is not there, and the tests of the text agree with the attributes. -/
theorem preferred_iff (lines : List Line) :
    Preferred lines (preferEnglishHlsAudioDefaults (lines.map Line.text)) ↔ Unharmed lines := by
  rw [Unharmed]
  cases hsees : seesEnglishAudio lines with
  | false =>
    have hlines : List.Forall₂ (fun line text => Becomes (hasEnglishAudio lines) text line) lines (lines.map Line.text) ↔
        ∀ line ∈ lines, Becomes (hasEnglishAudio lines) line.text line := by
      rw [List.forall₂_map_right_iff, List.forall₂_same]
    have hsame := prefer_of_not_sees hsees
    rw [hsame, if_neg Bool.false_ne_true]
    constructor
    · intro h henglish m hm haudio
      exact (becomes_self_iff _ _).mp (hlines.mp h.lines _ hm) henglish m rfl haudio
    · intro h
      refine ⟨hlines.mpr fun line hline => (becomes_self_iff _ line).mpr fun henglish m hm haudio => ?_, hsame⟩
      exact h henglish m (hm ▸ hline) haudio
  | true =>
    have hlines : List.Forall₂ (fun line text => Becomes (hasEnglishAudio lines) text line) lines
        (lines.map fun line => preferEnglishHlsAudioDefault line.text) ↔ ∀ line ∈ lines, LineMeets (hasEnglishAudio lines) line := by
      rw [List.forall₂_map_right_iff, List.forall₂_same]
      exact forall₂_congr fun line _ => becomes_iff _ line
    rw [prefer_of_sees hsees, if_pos rfl]
    constructor
    · exact fun h => hlines.mp h.lines
    · exact fun h => ⟨hlines.mpr h, again_of_stable hsees fun line hline => stable_of_lineMeets (h line hline)⟩

def defaultFirst : Media where
  attributes := [⟨"DEFAULT".toList, .bare "NO".toList⟩, audioType, ⟨"LANGUAGE".toList, .quoted "en".toList⟩,
    ⟨"NAME".toList, .quoted "English".toList⟩]
  ne_nil := List.cons_ne_nil _ _
  proper := by
    refine List.forall_mem_cons.mpr ⟨⟨List.all_eq_true.mp rfl, ⟨by decide, by decide⟩⟩,
      List.forall_mem_cons.mpr ⟨⟨List.all_eq_true.mp rfl, ⟨by decide, by decide⟩⟩,
      List.forall_mem_cons.mpr ⟨⟨List.all_eq_true.mp rfl, by decide +kernel⟩,
        List.forall_mem_singleton.mpr ⟨List.all_eq_true.mp rfl, by decide +kernel⟩⟩⟩⟩
  flags := by
    refine List.forall_mem_cons.mpr ⟨fun _ _ => ⟨false, rfl⟩, List.forall_mem_cons.mpr ⟨fun flag hname => ?_,
      List.forall_mem_cons.mpr ⟨fun flag hname => ?_, List.forall_mem_singleton.mpr fun flag hname => ?_⟩⟩⟩ <;>
      exact absurd hname (by cases flag <;> decide +kernel)
  unique := by decide +kernel

/-- Behind the colon the flag is missed, and a second one is added. -/
theorem default_added_again : ¬ ∀ lines, Preferred lines (preferEnglishHlsAudioDefaults (lines.map Line.text)) := by
  intro h
  have hlines := (h [.media defaultFirst]).lines
  have hsees : seesEnglishAudio [.media defaultFirst] = true := by decide +kernel
  have henglish : hasEnglishAudio [.media defaultFirst] = true := by decide +kernel
  have haudio : defaultFirst.isAudio = true := by decide +kernel
  have haim : aim Flag.default.name defaultFirst.attributes = .missed := by decide +kernel
  rw [prefer_of_sees hsees, List.map_singleton, List.forall₂_cons] at hlines
  have hmeets := (becomes_iff _ _).mp hlines.1
  rw [LineMeets, if_pos haudio] at hmeets
  have hlands := (hmeets .default).lands henglish
  rw [haim] at hlands
  cases hlands.1

end StreamArena.LiveHls.AudioDefaults
