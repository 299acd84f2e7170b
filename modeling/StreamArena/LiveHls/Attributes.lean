import Mathlib
import StreamArena.LiveHls.AttributeSearch

/-! The attributes of a tag as a player reads them, and what the search for a flag and its writing make of them. -/
namespace StreamArena.LiveHls.AudioDefaults
open AsciiText Separated

/-- The two attributes that are set. -/
inductive Flag where
  | default | autoselect
  deriving DecidableEq

def Flag.name : Flag → Text
  | default => "DEFAULT".toList
  | autoselect => "AUTOSELECT".toList

inductive AttributeValue where
  | quoted (text : Text)
  | bare (text : Text)
  deriving DecidableEq

def AttributeValue.text : AttributeValue → Text
  | quoted text => '"' :: text ++ ['"']
  | bare text => text

structure Attribute where
  name : Text
  value : AttributeValue
  deriving DecidableEq

def Attribute.text (a : Attribute) : Text := a.name ++ '=' :: a.value.text

def isNameChar (c : Char) : Bool := c.isUpper || c.isDigit || c == '-'

/-- An attribute as the format has it: a name of capitals, digits and hyphens, and a quoted string without quotes
or a value without quotes and commas. -/
structure Attribute.Proper (a : Attribute) : Prop where
  name : ∀ c ∈ a.name, isNameChar c = true
  value : match a.value with
    | .quoted text => '"' ∉ text
    | .bare text => '"' ∉ text ∧ ',' ∉ text

def mediaTag : Text := "#EXT-X-MEDIA:".toList

def mediaText (attributes : List Attribute) : Text := mediaTag ++ join ',' (attributes.map Attribute.text)

/-- A closing quote behind the last piece. -/
def closeLast : List Text → List Text
  | [] => []
  | [piece] => [piece ++ ['"']]
  | piece :: second :: pieces => piece :: closeLast (second :: pieces)

/-- The pieces between the commas of an attribute. -/
def Attribute.pieces (a : Attribute) : List Text :=
  match a.value with
  | .bare text => [a.name ++ '=' :: text]
  | .quoted text => (closeLast (text.splitOn ',')).modifyHead ((a.name ++ ['=', '"']) ++ ·)

/-- Where the search for an attribute ends. -/
inductive Aim where
  | missed
  | here
  /-- In a quoted value, before a comma of it, with the text up to there. -/
  | quoted (text : Text)
  /-- In a quoted value, behind its last comma. -/
  | closing
  deriving DecidableEq

/-- The search in the pieces of a quoted value after its first. -/
def aimQuoted (attrName : Text) : List Text → Aim
  | [] => .missed
  | piece :: pieces =>
    if names attrName piece then
      if pieces.isEmpty then .closing else .quoted (piece.drop (attrName.length + 1))
    else aimQuoted attrName pieces

def Attribute.aim (attrName : Text) (a : Attribute) : Aim :=
  match a.value with
  | .bare _ => .missed
  | .quoted text => aimQuoted attrName (text.splitOn ',').tail

def aimLater (attrName : Text) : List Attribute → Aim
  | [] => .missed
  | a :: attributes =>
    if a.name = attrName then .here
    else if a.aim attrName = .missed then aimLater attrName attributes
    else a.aim attrName

/-- The search passes over the name of the first attribute: a colon precedes it. -/
def aim (attrName : Text) : List Attribute → Aim
  | [] => .missed
  | a :: attributes => if a.aim attrName = .missed then aimLater attrName attributes else a.aim attrName

def Attribute.write (attrName value : Text) (a : Attribute) : Attribute :=
  match a.value with
  | .bare _ => a
  | .quoted text =>
    match text.splitOn ',' with
    | [] => a
    | piece :: pieces => { a with value := .quoted (join ',' (piece :: setPiece attrName value pieces)) }

def writeLater (attrName value : Text) : List Attribute → List Attribute
  | [] => [⟨attrName, .bare value⟩]
  | a :: attributes =>
    if a.name = attrName then ⟨attrName, .bare value⟩ :: attributes
    else if a.aim attrName = .missed then a :: writeLater attrName value attributes
    else a.write attrName value :: attributes

/-- What setting an attribute makes of the attributes, unless it takes a closing quote away. -/
def write (attrName value : Text) : List Attribute → List Attribute
  | [] => [⟨attrName, .bare value⟩]
  | a :: attributes =>
    if a.aim attrName = .missed then a :: writeLater attrName value attributes else a.write attrName value :: attributes

section pieces
variable {flag : Flag} {value : Text} {a : Attribute}

theorem Flag.notMem_name {c : Char} (hc : isNameChar c = false) (flag : Flag) : c ∉ flag.name := by
  intro hmem
  have hall : flag.name.all isNameChar = true := by cases flag <;> decide
  rw [List.all_eq_true.mp hall c hmem] at hc
  cases hc

theorem Attribute.Proper.notMem_name (h : a.Proper) {c : Char} (hc : isNameChar c = false) : c ∉ a.name := by
  intro hmem
  rw [h.name c hmem] at hc
  cases hc

theorem toAsciiUppercase_name {name : Text} (h : ∀ c ∈ name, isNameChar c = true) : toAsciiUppercase name = name := by
  have hupper (c) (hc : c ∈ name) : c.toUpper = id c := by
    refine toUpper_of_not_lower fun hlower => ?_
    have hname := h c hc
    simp only [isNameChar, Bool.or_eq_true, isUpper_iff, beq_iff_eq] at hname
    obtain (hletter | hdigit) | rfl := hname
    · omega
    · simp only [Char.isDigit, ge_iff_le, Bool.and_eq_true, decide_eq_true_eq, UInt32.le_iff_toNat_le] at hdigit
      have hnine : ('9' : Char).val.toNat = 57 := rfl
      have hnat : c.val.toNat = c.toNat := rfl
      omega
    · exact absurd hlower (by decide)
  exact (List.map_congr_left hupper).trans (List.map_id name)

/-- A piece that begins an attribute is found by the name of the attribute. -/
theorem names_attribute (h : a.Proper) (flag : Flag) (more : Text) :
    names flag.name (a.name ++ '=' :: more) = true ↔ a.name = flag.name := by
  have hupper : toAsciiUppercase (a.name ++ '=' :: more) = a.name ++ '=' :: toAsciiUppercase more := by
    rw [toAsciiUppercase, List.map_append, ← toAsciiUppercase, toAsciiUppercase_name h.name]
    rfl
  rw [names, startsWith_iff, hupper]
  constructor
  · rintro ⟨later, hlater⟩
    rw [List.append_assoc, List.singleton_append] at hlater
    exact (first_injective (flag.notMem_name rfl) (h.notMem_name rfl) hlater).1.symm
  · intro heq
    exact ⟨toAsciiUppercase more, by rw [heq]; simp⟩

theorem names_append_cons {c : Char} (hc : isNameChar c = false) (hne : c ≠ '=') (hd : c.toNat < 65) (piece more : Text) :
    names flag.name (piece ++ c :: more) = names flag.name piece := by
  have hupper : toAsciiUppercase (piece ++ c :: more) = toAsciiUppercase piece ++ c :: toAsciiUppercase more := by
    have hself : c.toUpper = c := (toUpper_eq_iff hd).mpr rfl
    rw [toAsciiUppercase, List.map_append, List.map_cons, hself]
    rfl
  have hmem : c ∉ flag.name ++ ['='] := by
    simp [flag.notMem_name hc, hne]
  rw [names, names, startsWith, startsWith, hupper, isPrefixOf_append_cons hmem]

theorem setPiece_append_of_not {pieces : List Text} (h : ∀ piece ∈ pieces, names flag.name piece = false) (rest : List Text) :
    setPiece flag.name value (pieces ++ rest) = pieces ++ setPiece flag.name value rest := by
  induction pieces with
  | nil => rfl
  | cons piece pieces ih =>
    rw [List.cons_append, setPiece, if_neg (by simp [h piece List.mem_cons_self]), ih fun p hp => h p (List.mem_cons_of_mem _ hp)]
    rfl

theorem setPiece_append_of_mem {pieces : List Text} {piece : Text} (hmem : piece ∈ pieces) (hname : names flag.name piece = true)
    (rest : List Text) : setPiece flag.name value (pieces ++ rest) = setPiece flag.name value pieces ++ rest := by
  induction pieces with
  | nil => cases hmem
  | cons first pieces ih =>
    rw [List.cons_append, setPiece, setPiece]
    split
    · rfl
    next hfirst =>
      obtain rfl | hmem := List.mem_cons.mp hmem
      · exact absurd hname hfirst
      · rw [ih hmem]
        rfl

theorem notMem_setPiece {c : Char} (hc : isNameChar c = false) (hne : c ≠ '=') (hvalue : c ∉ value) {pieces : List Text}
    (h : ∀ piece ∈ pieces, c ∉ piece) : ∀ piece ∈ setPiece flag.name value pieces, c ∉ piece := by
  induction pieces with
  | nil =>
    intro piece hpiece
    rw [setPiece, List.mem_singleton] at hpiece
    simp [hpiece, flag.notMem_name hc, hne, hvalue]
  | cons first pieces ih =>
    have hrest (piece) (hpiece : piece ∈ pieces) := h piece (List.mem_cons_of_mem _ hpiece)
    intro piece hpiece
    rw [setPiece] at hpiece
    split at hpiece
    · obtain rfl | hpiece := List.mem_cons.mp hpiece
      · have hfirst : c ∉ first.take (flag.name.length + 1) := fun hmem => h first List.mem_cons_self (List.mem_of_mem_take hmem)
        simp [hfirst, hvalue]
      · exact hrest piece hpiece
    · obtain rfl | hpiece := List.mem_cons.mp hpiece
      · exact h _ List.mem_cons_self
      · exact ih hrest piece hpiece

theorem join_modifyHead {pieces : List Text} (h : pieces ≠ []) (u : Text) :
    join ',' (pieces.modifyHead (u ++ ·)) = u ++ join ',' pieces := by
  cases pieces with
  | nil => exact absurd rfl h
  | cons piece pieces =>
    cases pieces with
    | nil => simp [join_singleton]
    | cons second pieces =>
      rw [List.modifyHead_cons, join_cons _ (List.cons_ne_nil _ _), join_cons _ (List.cons_ne_nil _ _), List.append_assoc]

theorem closeLast_ne_nil {pieces : List Text} (h : pieces ≠ []) : closeLast pieces ≠ [] := by
  cases pieces with
  | nil => exact absurd rfl h
  | cons piece pieces => cases pieces <;> simp [closeLast]

theorem join_closeLast {pieces : List Text} (h : pieces ≠ []) : join ',' (closeLast pieces) = join ',' pieces ++ ['"'] := by
  induction pieces with
  | nil => exact absurd rfl h
  | cons piece pieces ih =>
    cases pieces with
    | nil => rw [closeLast, join_singleton, join_singleton]
    | cons second pieces =>
      have hne := List.cons_ne_nil second pieces
      rw [closeLast, join_cons _ (closeLast_ne_nil hne), join_cons _ hne, ih hne, List.append_assoc, List.cons_append]

theorem closeLast_cons {pieces : List Text} (h : pieces ≠ []) (piece : Text) :
    closeLast (piece :: pieces) = piece :: closeLast pieces := by
  cases pieces with
  | nil => exact absurd rfl h
  | cons second pieces => rfl

theorem mem_closeLast {c : Char} (hc : c ≠ '"') {pieces : List Text} (h : ∀ piece ∈ pieces, c ∉ piece) :
    ∀ piece ∈ closeLast pieces, c ∉ piece := by
  induction pieces with
  | nil => exact h
  | cons first pieces ih =>
    intro piece hpiece
    by_cases hlast : pieces = []
    · rw [hlast, closeLast, List.mem_singleton] at hpiece
      simp [hpiece, h first List.mem_cons_self, hc]
    · rw [closeLast_cons hlast] at hpiece
      obtain rfl | hpiece := List.mem_cons.mp hpiece
      · exact h _ List.mem_cons_self
      · exact ih (fun p hp => h p (List.mem_cons_of_mem _ hp)) piece hpiece

/-- The pieces of an attribute after its first are within its quotes. -/
def Attribute.inner (a : Attribute) : List Text :=
  match a.value with
  | .bare _ => []
  | .quoted text => closeLast (text.splitOn ',').tail

theorem Attribute.exists_pieces_eq (a : Attribute) : ∃ more, a.pieces = (a.name ++ '=' :: more) :: a.inner := by
  obtain ⟨name, value⟩ := a
  cases value with
  | bare text => exact ⟨text, rfl⟩
  | quoted text =>
    rw [pieces, inner]
    dsimp only
    cases hsplit : text.splitOn ',' with
    | nil => exact absurd hsplit (List.splitOn_ne_nil _ _)
    | cons piece pieces =>
      by_cases hlast : pieces = []
      · exact ⟨'"' :: (piece ++ ['"']), by simp [hlast, closeLast]⟩
      · exact ⟨'"' :: piece, by simp [closeLast_cons hlast]⟩

theorem Attribute.pieces_ne_nil (a : Attribute) : a.pieces ≠ [] := by
  obtain ⟨more, hmore⟩ := a.exists_pieces_eq
  rw [hmore]
  exact List.cons_ne_nil _ _

theorem Attribute.join_pieces (a : Attribute) : join ',' a.pieces = a.text := by
  obtain ⟨name, value⟩ := a
  cases value with
  | bare text => exact join_singleton _
  | quoted text =>
    have hne := List.splitOn_ne_nil ',' text
    have hjoin : join ',' (text.splitOn ',') = text := List.intercalate_splitOn ','
    rw [pieces, join_modifyHead (closeLast_ne_nil hne), join_closeLast hne, hjoin, Attribute.text, AttributeValue.text]
    simp

theorem Attribute.Proper.comma_notMem (h : a.Proper) : ∀ piece ∈ a.pieces, ',' ∉ piece := by
  obtain ⟨name, value⟩ := a
  have hname := h.notMem_name (c := ',') rfl
  cases value with
  | bare text =>
    intro piece hpiece
    rw [pieces, List.mem_singleton] at hpiece
    have htext : ',' ∉ text := h.value.2
    simp [hpiece, hname, htext]
  | quoted text =>
    have hsplit : ∀ piece ∈ text.splitOn ',', ',' ∉ piece := fun piece hpiece => notMem_of_mem_splitOn hpiece
    have hinner := mem_closeLast (by decide) hsplit
    intro piece hpiece
    rw [pieces] at hpiece
    dsimp only at hpiece
    cases hclosed : closeLast (text.splitOn ',') with
    | nil => exact absurd hclosed (closeLast_ne_nil (List.splitOn_ne_nil _ _))
    | cons first rest =>
      rw [hclosed, List.modifyHead_cons] at hpiece
      rw [hclosed] at hinner
      obtain rfl | hpiece := List.mem_cons.mp hpiece
      · have hfirst := hinner first List.mem_cons_self
        simp [hname, hfirst]
      · exact hinner piece (List.mem_cons_of_mem _ hpiece)

/-- The line of a rendition, cut at its commas. -/
def mediaPieces (attributes : List Attribute) : List Text :=
  (attributes.flatMap Attribute.pieces).modifyHead (mediaTag ++ ·)

theorem flatMap_pieces_ne_nil {attributes : List Attribute} (h : attributes ≠ []) : attributes.flatMap Attribute.pieces ≠ [] := by
  cases attributes with
  | nil => exact absurd rfl h
  | cons a attributes =>
    rw [List.flatMap_cons]
    exact List.append_ne_nil_of_left_ne_nil a.pieces_ne_nil _

theorem join_flatMap_pieces (attributes : List Attribute) :
    join ',' (attributes.flatMap Attribute.pieces) = join ',' (attributes.map Attribute.text) := by
  induction attributes with
  | nil => rfl
  | cons a attributes ih =>
    cases attributes with
    | nil => rw [List.flatMap_singleton, List.map_singleton, join_singleton, a.join_pieces]
    | cons second attributes =>
      have hne := List.cons_ne_nil second attributes
      have htexts : (second :: attributes).map Attribute.text ≠ [] := by simp
      rw [List.flatMap_cons, join_append a.pieces_ne_nil (flatMap_pieces_ne_nil hne), a.join_pieces, ih]
      exact (join_cons a.text htexts).symm

theorem mediaText_eq {attributes : List Attribute} (h : attributes ≠ []) : mediaText attributes = join ',' (mediaPieces attributes) := by
  rw [mediaPieces, join_modifyHead (flatMap_pieces_ne_nil h), join_flatMap_pieces, mediaText]

/-! The search and the write, attribute by attribute. -/

theorem names_quote (flag : Flag) (piece : Text) : names flag.name (piece ++ ['"']) = names flag.name piece :=
  names_append_cons rfl (by decide) (by decide) piece []

theorem names_of_aimQuoted_missed {pieces : List Text} (h : aimQuoted flag.name pieces = .missed) :
    ∀ piece ∈ closeLast pieces, names flag.name piece = false := by
  induction pieces with
  | nil => exact fun piece hpiece => by cases hpiece
  | cons first pieces ih =>
    rw [aimQuoted] at h
    split at h
    · split at h <;> cases h
    next hfirst =>
      intro piece hpiece
      by_cases hlast : pieces = []
      · rw [hlast, closeLast, List.mem_singleton] at hpiece
        rw [hpiece, names_quote]
        simpa using hfirst
      · rw [closeLast_cons hlast] at hpiece
        obtain rfl | hpiece := List.mem_cons.mp hpiece
        · simpa using hfirst
        · exact ih h piece hpiece

/-- A match before a comma of the quoted value is written there. -/
theorem setPiece_of_aimQuoted_quoted {pieces : List Text} {text : Text} (h : aimQuoted flag.name pieces = .quoted text) :
    setPiece flag.name value (closeLast pieces) = closeLast (setPiece flag.name value pieces) ∧
      (∃ piece ∈ closeLast pieces, names flag.name piece = true) ∧ (setPiece flag.name value pieces = pieces ↔ text = value) := by
  induction pieces with
  | nil => cases h
  | cons first pieces ih =>
    rw [aimQuoted] at h
    split at h
    next hfirst =>
      split at h
      · cases h
      next hmore =>
        have hlast : pieces ≠ [] := by simpa using hmore
        obtain rfl := Aim.quoted.inj h
        rw [closeLast_cons hlast, setPiece, if_pos hfirst, setPiece, if_pos hfirst, closeLast_cons hlast]
        refine ⟨rfl, ⟨first, List.mem_cons_self, hfirst⟩, ?_⟩
        have hsplit := List.take_append_drop (flag.name.length + 1) first
        constructor
        · intro heq
          exact List.append_cancel_left (hsplit.trans (List.cons.inj heq).1.symm)
        · intro heq
          rw [← heq, hsplit]
    next hfirst =>
      have hlast : pieces ≠ [] := by
        rintro rfl
        cases h
      obtain ⟨hset, ⟨piece, hpiece, hname⟩, hsame⟩ := ih h
      rw [closeLast_cons hlast, setPiece, if_neg hfirst, setPiece, if_neg hfirst, closeLast_cons (setPiece_ne_nil _ _ _), hset]
      exact ⟨rfl, ⟨piece, List.mem_cons_of_mem _ hpiece, hname⟩, by rw [List.cons.injEq, ← hsame, and_iff_right rfl]⟩

def quotes (pieces : List Text) : Nat := (pieces.map (List.count '"')).sum

theorem quotes_append (pieces rest : List Text) : quotes (pieces ++ rest) = quotes pieces + quotes rest := by
  rw [quotes, List.map_append, List.sum_append]
  rfl

theorem quotes_cons (piece : Text) (pieces : List Text) : quotes (piece :: pieces) = piece.count '"' + quotes pieces := by
  rw [quotes, List.map_cons, List.sum_cons]
  rfl

theorem quotes_written (hvalue : '"' ∉ value) (n : Nat) (piece : Text) : (piece.take n ++ value).count '"' ≤ piece.count '"' := by
  rw [List.count_append, List.count_eq_zero.mpr hvalue, Nat.add_zero]
  exact (List.take_sublist n piece).count_le _

/-- A write adds no quotes. -/
theorem quotes_setPiece_le (hvalue : '"' ∉ value) (pieces : List Text) :
    quotes (setPiece flag.name value pieces) ≤ quotes pieces := by
  induction pieces with
  | nil =>
    have hnone : '"' ∉ flag.name ++ '=' :: value := by simp [flag.notMem_name (c := '"') rfl, hvalue]
    rw [setPiece, quotes_cons, List.count_eq_zero.mpr hnone]
    exact Nat.le_refl 0
  | cons piece pieces ih =>
    rw [setPiece]
    split
    · rw [quotes_cons, quotes_cons]
      exact Nat.add_le_add_right (quotes_written hvalue _ piece) _
    · rw [quotes_cons, quotes_cons]
      exact Nat.add_le_add_left ih _

/-- A write behind the last comma of a quoted value takes its closing quote. -/
theorem quotes_of_aimQuoted_closing (hvalue : '"' ∉ value) {pieces : List Text} (h : aimQuoted flag.name pieces = .closing)
    (rest : List Text) : quotes (setPiece flag.name value (closeLast pieces ++ rest)) < quotes (closeLast pieces ++ rest) := by
  induction pieces with
  | nil => cases h
  | cons first pieces ih =>
    rw [aimQuoted] at h
    split at h
    next hfirst =>
      split at h
      next hempty =>
        have hlength : flag.name.length + 1 ≤ first.length := by
          have hle := (startsWith_iff.mp hfirst).length_le
          rw [toAsciiUppercase, List.length_map, List.length_append, List.length_singleton] at hle
          exact hle
        have hquote : names flag.name (first ++ ['"']) = true := by rwa [names_quote]
        rw [List.isEmpty_iff.mp hempty, closeLast, List.singleton_append, setPiece, if_pos hquote, quotes_cons, quotes_cons,
          List.take_append_of_le_length hlength]
        have hle := quotes_written hvalue (flag.name.length + 1) first
        have hone : (first ++ ['"']).count '"' = first.count '"' + 1 := List.count_append
        omega
      next => cases h
    next hfirst =>
      have hlast : pieces ≠ [] := by
        rintro rfl
        cases h
      rw [closeLast_cons hlast, List.cons_append, setPiece, if_neg hfirst, quotes_cons, quotes_cons]
      exact Nat.add_lt_add_left (ih h) _

/-- What a search that ends within an attribute's quotes makes of the attribute. -/
theorem Attribute.write_spec (hcomma : ',' ∉ value) (hquote : '"' ∉ value) (h : a.Proper) {text : Text}
    (haim : a.aim flag.name = .quoted text) :
    (a.write flag.name value).name = a.name ∧ (a.write flag.name value).Proper ∧
      (∃ more, a.pieces = (a.name ++ '=' :: more) :: a.inner ∧
        (a.write flag.name value).pieces = (a.name ++ '=' :: more) :: setPiece flag.name value a.inner) ∧
      (∃ piece ∈ a.inner, names flag.name piece = true) ∧ (a.write flag.name value = a ↔ text = value) := by
  obtain ⟨name, content⟩ := a
  cases content with
  | bare content => cases haim
  | quoted content =>
    have hcontent : '"' ∉ content := h.value
    have hjoin : join ',' (content.splitOn ',') = content := List.intercalate_splitOn ','
    have hfree : ∀ piece ∈ content.splitOn ',', ',' ∉ piece := fun piece hpiece => notMem_of_mem_splitOn hpiece
    have hclean : ∀ piece ∈ content.splitOn ',', '"' ∉ piece := by
      intro piece hpiece hmem
      exact hcontent (hjoin ▸ mem_join_of_mem hpiece hmem)
    rw [aim] at haim
    rw [write, inner, pieces]
    dsimp only at haim ⊢
    cases hsplit : content.splitOn ',' with
    | nil => exact absurd hsplit (List.splitOn_ne_nil _ _)
    | cons first rest =>
      rw [hsplit] at haim hjoin hfree hclean
      rw [List.tail_cons] at haim ⊢
      have hlast : rest ≠ [] := by
        rintro rfl
        cases haim
      have hfree' : ∀ piece ∈ first :: setPiece flag.name value rest, ',' ∉ piece := by
        refine List.forall_mem_cons.mpr ⟨hfree first List.mem_cons_self, ?_⟩
        exact notMem_setPiece rfl (by decide) hcomma fun piece hpiece => hfree piece (List.mem_cons_of_mem _ hpiece)
      have hclean' : ∀ piece ∈ first :: setPiece flag.name value rest, '"' ∉ piece := by
        refine List.forall_mem_cons.mpr ⟨hclean first List.mem_cons_self, ?_⟩
        exact notMem_setPiece rfl (by decide) hquote fun piece hpiece => hclean piece (List.mem_cons_of_mem _ hpiece)
      have hback : (join ',' (first :: setPiece flag.name value rest)).splitOn ',' = first :: setPiece flag.name value rest :=
        List.splitOn_intercalate ',' hfree' (List.cons_ne_nil _ _)
      obtain ⟨hset, hhit, hsame⟩ := @setPiece_of_aimQuoted_quoted flag value _ _ haim
      refine ⟨rfl, ⟨h.name, ?_⟩, ⟨'"' :: first, ?_, ?_⟩, hhit, ?_⟩
      · intro hmem
        obtain ⟨piece, hpiece, hc⟩ | hc := mem_join hmem
        · exact hclean' piece hpiece hc
        · cases hc
      · rw [closeLast_cons hlast]
        simp
      · rw [pieces]
        dsimp only
        rw [hback, closeLast_cons (setPiece_ne_nil _ _ _), hset]
        simp
      · rw [← hsame]
        constructor
        · intro heq
          have htexts : join ',' (first :: setPiece flag.name value rest) = join ',' (first :: rest) := by
            rw [hjoin]
            simpa using heq
          exact (List.cons.inj (join_injective (List.cons_ne_nil _ _) (List.cons_ne_nil _ _) hfree' hfree htexts)).2
        · intro heq
          dsimp only
          rw [heq, hjoin]

theorem Attribute.aim_cases (attrName : Text) (a : Attribute) :
    a.aim attrName = .missed ∨ (∃ text, a.aim attrName = .quoted text) ∨ a.aim attrName = .closing := by
  obtain ⟨name, content⟩ := a
  cases content with
  | bare content => exact .inl rfl
  | quoted content =>
    rw [aim]
    dsimp only
    induction (content.splitOn ',').tail with
    | nil => exact .inl rfl
    | cons piece pieces ih =>
      rw [aimQuoted]
      split
      · split
        · exact .inr (.inr rfl)
        · exact .inr (.inl ⟨_, rfl⟩)
      · exact ih

theorem Attribute.names_of_aim_missed (h : a.aim flag.name = .missed) : ∀ piece ∈ a.inner, names flag.name piece = false := by
  obtain ⟨name, content⟩ := a
  cases content with
  | bare content => exact fun piece hpiece => by cases hpiece
  | quoted content => exact names_of_aimQuoted_missed h

theorem Attribute.quotes_of_aim_closing (hquote : '"' ∉ value) (h : a.aim flag.name = .closing) (rest : List Text) :
    quotes (setPiece flag.name value (a.inner ++ rest)) < quotes (a.inner ++ rest) := by
  obtain ⟨name, content⟩ := a
  cases content with
  | bare content => cases h
  | quoted content => exact quotes_of_aimQuoted_closing hquote h rest

/-- Attributes as the format has them, the two flags without quotes. -/
structure Proper (attributes : List Attribute) : Prop where
  proper : ∀ a ∈ attributes, a.Proper
  flags : ∀ a ∈ attributes, ∀ flag : Flag, a.name = flag.name → ∃ text, a.value = .bare text

theorem Proper.tail {attributes : List Attribute} (h : Proper (a :: attributes)) : Proper attributes :=
  ⟨fun b hb => h.proper b (List.mem_cons_of_mem _ hb), fun b hb => h.flags b (List.mem_cons_of_mem _ hb)⟩

theorem setPiece_cons_of_not {piece : Text} (h : ¬ names flag.name piece = true) (pieces : List Text) :
    setPiece flag.name value (piece :: pieces) = piece :: setPiece flag.name value pieces := by
  rw [setPiece, if_neg h]

/-- After the first attribute, the pieces are written as the attributes are. -/
theorem setPiece_flatMap_pieces (hcomma : ',' ∉ value) (hquote : '"' ∉ value) {attributes : List Attribute} (h : Proper attributes)
    (haim : aimLater flag.name attributes ≠ .closing) :
    setPiece flag.name value (attributes.flatMap Attribute.pieces) =
      (writeLater flag.name value attributes).flatMap Attribute.pieces := by
  induction attributes with
  | nil => rfl
  | cons a attributes ih =>
    have hproper := h.proper a List.mem_cons_self
    obtain ⟨more, hpieces⟩ := a.exists_pieces_eq
    rw [aimLater] at haim
    rw [List.flatMap_cons, writeLater]
    by_cases hname : a.name = flag.name
    · obtain ⟨text, htext⟩ := h.flags a List.mem_cons_self flag hname
      have hbare : a.pieces = [flag.name ++ '=' :: text] := by rw [Attribute.pieces, htext, hname]
      have hfound : names flag.name (flag.name ++ '=' :: text) = true := by
        have hstart := (names_attribute hproper flag text).mpr hname
        rwa [hname] at hstart
      have htake : (flag.name ++ '=' :: text).take (flag.name.length + 1) = flag.name ++ ['='] := by
        rw [List.take_length_add_append]
        rfl
      rw [if_pos hname, hbare, List.singleton_append, setPiece, if_pos hfound, htake, List.flatMap_cons]
      simp [Attribute.pieces]
    · have hstart : ¬ names flag.name (a.name ++ '=' :: more) = true := (names_attribute hproper flag more).not.mpr hname
      rw [if_neg hname] at haim
      rw [if_neg hname, hpieces, List.cons_append, setPiece_cons_of_not hstart]
      obtain hmissed | ⟨text, hquoted⟩ | hclosing := a.aim_cases flag.name
      · rw [if_pos hmissed] at haim
        rw [if_pos hmissed, setPiece_append_of_not (Attribute.names_of_aim_missed hmissed), ih h.tail haim, List.flatMap_cons, hpieces,
          List.cons_append]
      · obtain ⟨-, -, ⟨more', hbefore, hafter⟩, ⟨piece, hpiece, hfound⟩, -⟩ := Attribute.write_spec hcomma hquote hproper hquoted
        rw [hpieces] at hbefore
        rw [if_neg (by rw [hquoted]; simp), setPiece_append_of_mem hpiece hfound, List.flatMap_cons, hafter,
          ← (List.cons.inj hbefore).1, List.cons_append]
      · rw [hclosing] at haim
        simp at haim

theorem quotes_of_aimLater_closing (hquote : '"' ∉ value) {attributes : List Attribute} (h : Proper attributes)
    (haim : aimLater flag.name attributes = .closing) :
    quotes (setPiece flag.name value (attributes.flatMap Attribute.pieces)) < quotes (attributes.flatMap Attribute.pieces) := by
  induction attributes with
  | nil => cases haim
  | cons a attributes ih =>
    have hproper := h.proper a List.mem_cons_self
    obtain ⟨more, hpieces⟩ := a.exists_pieces_eq
    rw [aimLater] at haim
    split at haim
    · cases haim
    next hname =>
      have hstart : ¬ names flag.name (a.name ++ '=' :: more) = true := (names_attribute hproper flag more).not.mpr hname
      rw [List.flatMap_cons, hpieces, List.cons_append, setPiece_cons_of_not hstart, quotes_cons, quotes_cons]
      refine Nat.add_lt_add_left ?_ _
      split at haim
      next hmissed =>
        rw [setPiece_append_of_not (Attribute.names_of_aim_missed hmissed), quotes_append, quotes_append]
        exact Nat.add_lt_add_left (ih h.tail haim) _
      next => exact Attribute.quotes_of_aim_closing hquote haim _

theorem names_mediaTag (flag : Flag) (piece : Text) : ¬ names flag.name (mediaTag ++ piece) = true := by
  have hsharp : toAsciiUppercase mediaTag = '#' :: "EXT-X-MEDIA:".toList := by decide
  have hname : flag.name.head? ≠ some '#' := by cases flag <;> decide
  rw [names, startsWith_iff, toAsciiUppercase, List.map_append, ← toAsciiUppercase, hsharp]
  rintro ⟨rest, hrest⟩
  cases hflag : flag.name with
  | nil => cases flag <;> cases hflag
  | cons c name =>
    rw [hflag] at hrest hname
    exact hname (congrArg some (List.cons.inj hrest).1)

theorem mediaPieces_cons (attributes : List Attribute) {more : Text} (h : a.pieces = (a.name ++ '=' :: more) :: a.inner) :
    mediaPieces (a :: attributes) =
      (mediaTag ++ (a.name ++ '=' :: more)) :: (a.inner ++ attributes.flatMap Attribute.pieces) := by
  rw [mediaPieces, List.flatMap_cons, h, List.cons_append, List.modifyHead_cons]

/-- Setting a flag writes the attributes of the line. -/
theorem setPiece_mediaPieces (hcomma : ',' ∉ value) (hquote : '"' ∉ value) {attributes : List Attribute} (hne : attributes ≠ [])
    (h : Proper attributes) (haim : aim flag.name attributes ≠ .closing) :
    setPiece flag.name value (mediaPieces attributes) = mediaPieces (write flag.name value attributes) := by
  cases attributes with
  | nil => exact absurd rfl hne
  | cons a attributes =>
    have hproper := h.proper a List.mem_cons_self
    obtain ⟨more, hpieces⟩ := a.exists_pieces_eq
    rw [aim] at haim
    rw [mediaPieces_cons attributes hpieces, setPiece_cons_of_not (names_mediaTag flag _), write]
    obtain hmissed | ⟨text, hquoted⟩ | hclosing := a.aim_cases flag.name
    · rw [if_pos hmissed] at haim
      rw [if_pos hmissed, setPiece_append_of_not (Attribute.names_of_aim_missed hmissed),
        setPiece_flatMap_pieces hcomma hquote h.tail haim, mediaPieces_cons _ hpieces]
    · obtain ⟨-, -, ⟨more', hbefore, hafter⟩, ⟨piece, hpiece, hfound⟩, -⟩ := Attribute.write_spec hcomma hquote hproper hquoted
      rw [hpieces] at hbefore
      rw [if_neg (by rw [hquoted]; simp), setPiece_append_of_mem hpiece hfound, mediaPieces, List.flatMap_cons, hafter,
        ← (List.cons.inj hbefore).1, List.cons_append, List.modifyHead_cons]
    · rw [hclosing] at haim
      simp at haim

theorem quotes_of_aim_closing (hquote : '"' ∉ value) {attributes : List Attribute} (h : Proper attributes)
    (haim : aim flag.name attributes = .closing) :
    quotes (setPiece flag.name value (mediaPieces attributes)) < quotes (mediaPieces attributes) := by
  cases attributes with
  | nil => cases haim
  | cons a attributes =>
    obtain ⟨more, hpieces⟩ := a.exists_pieces_eq
    rw [mediaPieces_cons attributes hpieces, setPiece_cons_of_not (names_mediaTag flag _), quotes_cons, quotes_cons]
    refine Nat.add_lt_add_left ?_ _
    rw [aim] at haim
    split at haim
    next hmissed =>
      rw [setPiece_append_of_not (Attribute.names_of_aim_missed hmissed), quotes_append, quotes_append]
      exact Nat.add_lt_add_left (quotes_of_aimLater_closing hquote h.tail haim) _
    next => exact Attribute.quotes_of_aim_closing hquote haim _

/-- A write adds the flag at the end, changes it in its place or changes a quoted value. -/
inductive Written (flag : Flag) (value : Text) : Aim → List Attribute → List Attribute → Prop where
  | added (attributes : List Attribute) : Written flag value .missed attributes (attributes ++ [⟨flag.name, .bare value⟩])
  | changed (before : List Attribute) (text : Text) (after : List Attribute) :
    Written flag value .here (before ++ ⟨flag.name, .bare text⟩ :: after) (before ++ ⟨flag.name, .bare value⟩ :: after)
  | quoted {a : Attribute} {text : Text} (before : List Attribute) (haim : a.aim flag.name = .quoted text) (after : List Attribute) :
    Written flag value (.quoted text) (before ++ a :: after) (before ++ a.write flag.name value :: after)

theorem Written.cons {aim : Aim} {attributes attributes' : List Attribute} (h : Written flag value aim attributes attributes')
    (a : Attribute) : Written flag value aim (a :: attributes) (a :: attributes') := by
  cases h with
  | added => exact .added (a :: attributes)
  | changed before text after => exact .changed (a :: before) text after
  | quoted before haim after => exact .quoted (a :: before) haim after

theorem written_later {attributes : List Attribute} (h : Proper attributes) (haim : aimLater flag.name attributes ≠ .closing) :
    Written flag value (aimLater flag.name attributes) attributes (writeLater flag.name value attributes) := by
  induction attributes with
  | nil => exact .added []
  | cons a attributes ih =>
    rw [aimLater] at haim ⊢
    rw [writeLater]
    by_cases hname : a.name = flag.name
    · obtain ⟨text, htext⟩ := h.flags a List.mem_cons_self flag hname
      have ha : a = ⟨flag.name, .bare text⟩ := by
        rw [← hname, ← htext]
      rw [if_pos hname, if_pos hname, ha]
      exact .changed [] text attributes
    · rw [if_neg hname] at haim ⊢
      rw [if_neg hname]
      by_cases hmissed : a.aim flag.name = .missed
      · rw [if_pos hmissed] at haim ⊢
        rw [if_pos hmissed]
        exact (ih h.tail haim).cons a
      · rw [if_neg hmissed] at haim ⊢
        rw [if_neg hmissed]
        obtain hmissed' | ⟨text, hquoted⟩ | hclosing := a.aim_cases flag.name
        · exact absurd hmissed' hmissed
        · rw [hquoted]
          exact .quoted [] hquoted attributes
        · exact absurd hclosing haim

theorem written {attributes : List Attribute} (h : Proper attributes) (haim : aim flag.name attributes ≠ .closing) :
    Written flag value (aim flag.name attributes) attributes (write flag.name value attributes) := by
  cases attributes with
  | nil => exact .added []
  | cons a attributes =>
    rw [aim] at haim ⊢
    rw [write]
    by_cases hmissed : a.aim flag.name = .missed
    · rw [if_pos hmissed] at haim ⊢
      rw [if_pos hmissed]
      exact (written_later h.tail haim).cons a
    · rw [if_neg hmissed] at haim ⊢
      rw [if_neg hmissed]
      obtain hmissed' | ⟨text, hquoted⟩ | hclosing := a.aim_cases flag.name
      · exact absurd hmissed' hmissed
      · rw [hquoted]
        exact .quoted [] hquoted attributes
      · exact absurd hclosing haim

def named (flag : Flag) (attributes : List Attribute) : List Attribute := attributes.filter fun a => a.name == flag.name

def others (attributes : List Attribute) : List Attribute :=
  attributes.filter fun a => a.name != Flag.default.name && a.name != Flag.autoselect.name

theorem Flag.name_injective {flag flag' : Flag} (h : flag.name = flag'.name) : flag = flag' := by
  cases flag <;> cases flag' <;> first | rfl | cases h

theorem others_append (attributes more : List Attribute) : others (attributes ++ more) = others attributes ++ others more :=
  List.filter_append ..

theorem named_append (attributes more : List Attribute) : named flag (attributes ++ more) = named flag attributes ++ named flag more :=
  List.filter_append ..

theorem others_cons_flag (flag : Flag) (content : AttributeValue) (attributes : List Attribute) :
    others (⟨flag.name, content⟩ :: attributes) = others attributes := by
  rw [others, List.filter_cons_of_neg (by cases flag <;> simp)]
  rfl

theorem named_cons_flag (flag : Flag) (content : AttributeValue) (attributes : List Attribute) :
    named flag (⟨flag.name, content⟩ :: attributes) = ⟨flag.name, content⟩ :: named flag attributes := by
  rw [named, List.filter_cons_of_pos (by simp)]
  rfl

theorem named_cons_of_ne {attributes : List Attribute} (h : a.name ≠ flag.name) : named flag (a :: attributes) = named flag attributes := by
  rw [named, List.filter_cons_of_neg (by simpa using h)]
  rfl

theorem others_cons_of_ne {attributes : List Attribute} (h : ∀ flag : Flag, a.name ≠ flag.name) :
    others (a :: attributes) = a :: others attributes := by
  rw [others, List.filter_cons_of_pos (by simp [h])]
  rfl

/-- An attribute whose quotes the search ends in is no flag. -/
theorem Proper.name_ne {attributes : List Attribute} (h : Proper attributes) (ha : a ∈ attributes) {text : Text}
    (haim : a.aim flag.name = .quoted text) (flag' : Flag) : a.name ≠ flag'.name := by
  intro hname
  obtain ⟨bare, hbare⟩ := h.flags a ha flag' hname
  rw [Attribute.aim, hbare] at haim
  cases haim

section written
variable {attributes attributes' : List Attribute} {found : Aim}

theorem Written.proper (hcomma : ',' ∉ value) (hquote : '"' ∉ value) (h : Proper attributes)
    (hw : Written flag value found attributes attributes') : Proper attributes' := by
  have hflag : Attribute.Proper ⟨flag.name, .bare value⟩ := by
    refine ⟨fun c hc => ?_, hquote, hcomma⟩
    by_contra hnot
    exact flag.notMem_name (by simpa using hnot) hc
  cases hw with
  | added =>
    refine ⟨fun b hb => ?_, fun b hb flag' hname => ?_⟩ <;> obtain hb | hb := List.mem_append.mp hb
    · exact h.proper b hb
    · rwa [List.mem_singleton.mp hb]
    · exact h.flags b hb flag' hname
    · exact ⟨value, by rw [List.mem_singleton.mp hb]⟩
  | changed before text after =>
    have hold (b) (hb : b ∈ before ∨ b ∈ after) : b ∈ before ++ ⟨flag.name, .bare text⟩ :: after :=
      List.mem_append.mpr (hb.imp_right fun hb => List.mem_cons_of_mem _ hb)
    refine ⟨fun b hb => ?_, fun b hb flag' hname => ?_⟩ <;> obtain hb | hb := List.mem_append.mp hb
    · exact h.proper b (hold b (.inl hb))
    · obtain rfl | hb := List.mem_cons.mp hb
      · exact hflag
      · exact h.proper b (hold b (.inr hb))
    · exact h.flags b (hold b (.inl hb)) flag' hname
    · obtain rfl | hb := List.mem_cons.mp hb
      · exact ⟨value, rfl⟩
      · exact h.flags b (hold b (.inr hb)) flag' hname
  | @quoted a text before haim after =>
    have ha : a ∈ before ++ a :: after := List.mem_append_right _ List.mem_cons_self
    have hold (b) (hb : b ∈ before ∨ b ∈ after) : b ∈ before ++ a :: after :=
      List.mem_append.mpr (hb.imp_right fun hb => List.mem_cons_of_mem _ hb)
    obtain ⟨hname, hproper, -⟩ := Attribute.write_spec hcomma hquote (h.proper a ha) haim
    refine ⟨fun b hb => ?_, fun b hb flag' hflag' => ?_⟩ <;> obtain hb | hb := List.mem_append.mp hb
    · exact h.proper b (hold b (.inl hb))
    · obtain rfl | hb := List.mem_cons.mp hb
      · exact hproper
      · exact h.proper b (hold b (.inr hb))
    · exact h.flags b (hold b (.inl hb)) flag' hflag'
    · obtain rfl | hb := List.mem_cons.mp hb
      · exact absurd (hname.symm.trans hflag') (h.name_ne ha haim flag')
      · exact h.flags b (hold b (.inr hb)) flag' hflag'

/-- The other attributes stay as they are unless a quoted value is changed. -/
theorem Written.others_iff (hcomma : ',' ∉ value) (hquote : '"' ∉ value) (h : Proper attributes)
    (hw : Written flag value found attributes attributes') :
    others attributes' = others attributes ↔ ∀ text, found = .quoted text → text = value := by
  cases hw with
  | added =>
    refine iff_of_true ?_ fun _ heq => by cases heq
    rw [others_append, others_cons_flag]
    exact List.append_nil _
  | changed before text after =>
    refine iff_of_true ?_ fun _ heq => by cases heq
    rw [others_append, others_append, others_cons_flag, others_cons_flag]
  | @quoted a text before haim after =>
    have ha : a ∈ before ++ a :: after := List.mem_append_right _ List.mem_cons_self
    have hne := h.name_ne ha haim
    obtain ⟨hname, -, -, -, hsame⟩ := Attribute.write_spec hcomma hquote (h.proper a ha) haim
    rw [others_append, others_append, others_cons_of_ne hne, others_cons_of_ne fun flag' => hname.symm ▸ hne flag',
      List.append_cancel_left_eq, List.cons.injEq, and_iff_left rfl, hsame]
    constructor
    · intro heq other hother
      rw [← Aim.quoted.inj hother]
      exact heq
    · exact fun hall => hall text rfl

theorem Written.named_other (hcomma : ',' ∉ value) (hquote : '"' ∉ value) (h : Proper attributes)
    (hw : Written flag value found attributes attributes') {flag' : Flag} (hflag : flag ≠ flag') :
    named flag' attributes' = named flag' attributes := by
  have hname : flag.name ≠ flag'.name := fun heq => hflag (Flag.name_injective heq)
  cases hw with
  | added =>
    rw [named_append, named_cons_of_ne hname]
    exact List.append_nil _
  | changed before text after => rw [named_append, named_append, named_cons_of_ne hname, named_cons_of_ne hname]
  | @quoted a text before haim after =>
    have ha : a ∈ before ++ a :: after := List.mem_append_right _ List.mem_cons_self
    have hne := h.name_ne ha haim flag'
    obtain ⟨hname', -⟩ := Attribute.write_spec hcomma hquote (h.proper a ha) haim
    rw [named_append, named_append, named_cons_of_ne hne, named_cons_of_ne (hname'.symm ▸ hne)]

/-- Whether the flag stands there once, with a given value. -/
def Lands (flag : Flag) (value wanted : Text) (attributes : List Attribute) : Aim → Prop
  | .missed => named flag attributes = [] ∧ value = wanted
  | .here => value = wanted
  | .quoted _ => ⟨flag.name, .bare wanted⟩ ∈ attributes
  | .closing => False

theorem Written.named_iff (hcomma : ',' ∉ value) (hquote : '"' ∉ value) (h : Proper attributes)
    (hw : Written flag value found attributes attributes') (hunique : (named flag attributes).length ≤ 1) (wanted : Text) :
    named flag attributes' = [⟨flag.name, .bare wanted⟩] ↔ Lands flag value wanted attributes found := by
  cases hw with
  | added =>
    rw [named_append, named_cons_flag, Lands]
    constructor
    · intro heq
      cases hnamed : named flag attributes with
      | nil =>
        rw [hnamed] at heq
        refine ⟨rfl, ?_⟩
        simpa [named] using heq
      | cons b rest =>
        rw [hnamed] at heq
        simp at heq
    · rintro ⟨hnone, rfl⟩
      rw [hnone]
      rfl
  | changed before text after =>
    rw [named_append, named_cons_flag] at hunique ⊢
    rw [List.length_append, List.length_cons] at hunique
    have hbefore : named flag before = [] := List.eq_nil_of_length_eq_zero (by omega)
    have hafter : named flag after = [] := List.eq_nil_of_length_eq_zero (by omega)
    rw [hbefore, hafter, Lands]
    simp
  | @quoted a text before haim after =>
    have ha : a ∈ before ++ a :: after := List.mem_append_right _ List.mem_cons_self
    have hne := h.name_ne ha haim flag
    obtain ⟨hname, -⟩ := Attribute.write_spec hcomma hquote (h.proper a ha) haim
    have hsame : named flag (before ++ a.write flag.name value :: after) = named flag (before ++ a :: after) := by
      rw [named_append, named_append, named_cons_of_ne hne, named_cons_of_ne (hname.symm ▸ hne)]
    rw [hsame, Lands]
    constructor
    · intro heq
      have hmem : (⟨flag.name, .bare wanted⟩ : Attribute) ∈ named flag (before ++ a :: after) := by
        rw [heq]
        exact List.mem_singleton_self _
      exact (List.mem_filter.mp hmem).1
    · intro hmem
      have hnamed : (⟨flag.name, .bare wanted⟩ : Attribute) ∈ named flag (before ++ a :: after) :=
        List.mem_filter.mpr ⟨hmem, by simp⟩
      obtain ⟨b, hb⟩ := List.length_eq_one_iff.mp (Nat.le_antisymm hunique (List.length_pos_of_mem hnamed))
      rw [hb] at hnamed ⊢
      rw [List.mem_singleton.mp hnamed]

end written

/-! Writing one flag leaves the search for the other where it ends. -/

theorem name_of_names {flag flag' : Flag} {piece : Text} (h : names flag.name piece = true) (h' : names flag'.name piece = true) :
    flag = flag' := by
  obtain ⟨rest, hrest⟩ := startsWith_iff.mp h
  obtain ⟨rest', hrest'⟩ := startsWith_iff.mp h'
  rw [← hrest', List.append_assoc, List.append_assoc, List.singleton_append, List.singleton_append] at hrest
  exact Flag.name_injective (first_injective (flag.notMem_name rfl) (flag'.notMem_name rfl) hrest).1

theorem names_written {piece : Text} (h : names flag.name piece = true) :
    names flag.name (piece.take (flag.name.length + 1) ++ value) = true := by
  obtain ⟨rest, hrest⟩ := startsWith_iff.mp h
  have htake : toAsciiUppercase (piece.take (flag.name.length + 1)) = flag.name ++ ['='] := by
    rw [toAsciiUppercase, List.map_take, ← toAsciiUppercase, ← hrest, List.take_left' (by simp)]
  rw [names, startsWith_iff, toAsciiUppercase, List.map_append, ← toAsciiUppercase, htake]
  exact List.prefix_append _ _

theorem aimQuoted_setPiece {flag' : Flag} (hne : flag ≠ flag') {pieces : List Text} {text : Text}
    (h : aimQuoted flag.name pieces = .quoted text) :
    aimQuoted flag'.name (setPiece flag.name value pieces) = aimQuoted flag'.name pieces := by
  induction pieces with
  | nil => cases h
  | cons first pieces ih =>
    rw [aimQuoted] at h
    rw [setPiece]
    split at h
    next hfirst =>
      have hother : ¬ names flag'.name first = true := fun hname => hne (name_of_names hfirst hname)
      have hwritten : ¬ names flag'.name (first.take (flag.name.length + 1) ++ value) = true :=
        fun hname => hne (name_of_names (names_written hfirst) hname)
      rw [if_pos hfirst, aimQuoted, if_neg hwritten, aimQuoted, if_neg hother]
    next hfirst =>
      have hmore : pieces.isEmpty = (setPiece flag.name value pieces).isEmpty := by
        have hsome : pieces ≠ [] := by
          rintro rfl
          cases h
        rw [List.isEmpty_eq_false_iff.mpr hsome, List.isEmpty_eq_false_iff.mpr (setPiece_ne_nil _ _ _)]
      rw [if_neg hfirst, aimQuoted, aimQuoted, ih h, hmore]

theorem Attribute.aim_write (hcomma : ',' ∉ value) {flag' : Flag} (hne : flag ≠ flag') {text : Text}
    (haim : a.aim flag.name = .quoted text) : (a.write flag.name value).aim flag'.name = a.aim flag'.name := by
  obtain ⟨name, content⟩ := a
  cases content with
  | bare content => cases haim
  | quoted content =>
    rw [aim] at haim
    rw [write, aim, aim]
    dsimp only at haim ⊢
    have hfree : ∀ piece ∈ content.splitOn ',', ',' ∉ piece := fun piece hpiece => notMem_of_mem_splitOn hpiece
    cases hsplit : content.splitOn ',' with
    | nil => exact absurd hsplit (List.splitOn_ne_nil _ _)
    | cons first rest =>
      rw [hsplit] at haim hfree
      have hfree' : ∀ piece ∈ first :: setPiece flag.name value rest, ',' ∉ piece := by
        refine List.forall_mem_cons.mpr ⟨hfree first List.mem_cons_self, ?_⟩
        exact notMem_setPiece rfl (by decide) hcomma fun piece hpiece => hfree piece (List.mem_cons_of_mem _ hpiece)
      have hback : (join ',' (first :: setPiece flag.name value rest)).splitOn ',' = first :: setPiece flag.name value rest :=
        List.splitOn_intercalate ',' hfree' (List.cons_ne_nil _ _)
      dsimp only
      rw [hback]
      exact aimQuoted_setPiece hne haim

theorem aimLater_writeLater (hcomma : ',' ∉ value) {flag' : Flag} (hne : flag ≠ flag') {attributes : List Attribute}
    (h : Proper attributes) (haim : aimLater flag.name attributes ≠ .closing) :
    aimLater flag'.name (writeLater flag.name value attributes) = aimLater flag'.name attributes := by
  have hname : flag.name ≠ flag'.name := fun heq => hne (Flag.name_injective heq)
  have hbare : Attribute.aim flag'.name ⟨flag.name, .bare value⟩ = .missed := rfl
  induction attributes with
  | nil => simp only [writeLater, aimLater, hname, hbare, ↓reduceIte]
  | cons a attributes ih =>
    rw [aimLater] at haim
    rw [writeLater]
    by_cases hflag : a.name = flag.name
    · obtain ⟨text, htext⟩ := h.flags a List.mem_cons_self flag hflag
      have hmissed : a.aim flag'.name = .missed := by rw [Attribute.aim, htext]
      rw [if_pos hflag, aimLater, if_neg hname, if_pos hbare, aimLater, if_neg (hflag ▸ hname), if_pos hmissed]
    · rw [if_neg hflag] at haim
      rw [if_neg hflag]
      by_cases hmissed : a.aim flag.name = .missed
      · rw [if_pos hmissed] at haim
        rw [if_pos hmissed, aimLater, aimLater, ih h.tail haim]
      · rw [if_neg hmissed] at haim
        rw [if_neg hmissed]
        obtain hmissed' | ⟨text, hquoted⟩ | hclosing := a.aim_cases flag.name
        · exact absurd hmissed' hmissed
        · have hkept : (a.write flag.name value).name = a.name := by
            rw [Attribute.write]
            split
            · rfl
            · split <;> rfl
          rw [aimLater, aimLater, hkept, Attribute.aim_write hcomma hne hquoted]
        · exact absurd hclosing haim

theorem aim_write (hcomma : ',' ∉ value) {flag' : Flag} (hne : flag ≠ flag') {attributes : List Attribute}
    (h : Proper attributes) (haim : aim flag.name attributes ≠ .closing) :
    aim flag'.name (write flag.name value attributes) = aim flag'.name attributes := by
  cases attributes with
  | nil => rfl
  | cons a attributes =>
    rw [aim] at haim
    rw [write]
    by_cases hmissed : a.aim flag.name = .missed
    · rw [if_pos hmissed] at haim
      rw [if_pos hmissed, aim, aim, aimLater_writeLater hcomma hne h.tail haim]
    · rw [if_neg hmissed] at haim
      rw [if_neg hmissed]
      obtain hmissed' | ⟨text, hquoted⟩ | hclosing := a.aim_cases flag.name
      · exact absurd hmissed' hmissed
      · rw [aim, aim, Attribute.aim_write hcomma hne hquoted]
      · exact absurd hclosing haim

/-! A line gives its attributes back. -/

/-- What may follow a value. -/
def EndsValue (rest : Text) : Prop := rest = [] ∨ ∃ more, rest = ',' :: more

theorem value_injective {v v' : AttributeValue} {rest rest' : Text} (hrest : EndsValue rest) (hrest' : EndsValue rest')
    (hv : Attribute.Proper ⟨[], v⟩) (hv' : Attribute.Proper ⟨[], v'⟩) (h : v.text ++ rest = v'.text ++ rest') :
    v = v' ∧ rest = rest' := by
  have hmixed {t t' r r' : Text} (hr' : EndsValue r') (ht' : '"' ∉ t') (heq : '"' :: t ++ r = t' ++ r') : False := by
    cases t' with
    | cons c t' => exact ht' (by rw [← (List.cons.inj heq).1]; exact List.mem_cons_self)
    | nil =>
      obtain rfl | ⟨more, rfl⟩ := hr'
      · cases heq
      · cases (List.cons.inj heq).1
  cases v with
  | quoted t =>
    cases v' with
    | quoted t' =>
      simp only [AttributeValue.text, List.cons_append, List.append_assoc, List.nil_append] at h
      obtain ⟨rfl, rfl⟩ := first_injective hv.value hv'.value (List.cons.inj h).2
      exact ⟨rfl, rfl⟩
    | bare t' => exact (hmixed hrest' hv'.value.1 h).elim
  | bare t =>
    cases v' with
    | quoted t' => exact (hmixed hrest hv.value.1 h.symm).elim
    | bare t' =>
      have ht : ',' ∉ t := hv.value.2
      have ht' : ',' ∉ t' := hv'.value.2
      simp only [AttributeValue.text] at h
      obtain rfl | ⟨more, rfl⟩ := hrest <;> obtain rfl | ⟨more', rfl⟩ := hrest'
      · rw [List.append_nil, List.append_nil] at h
        exact ⟨by rw [h], rfl⟩
      · rw [List.append_nil] at h
        exact absurd (by simp [h]) ht
      · rw [List.append_nil] at h
        exact absurd (by simp [← h]) ht'
      · obtain ⟨rfl, rfl⟩ := first_injective ht ht' h
        exact ⟨rfl, rfl⟩

theorem text_injective {a b : Attribute} {rest rest' : Text} (hrest : EndsValue rest) (hrest' : EndsValue rest') (ha : a.Proper)
    (hb : b.Proper) (h : a.text ++ rest = b.text ++ rest') : a = b ∧ rest = rest' := by
  rw [Attribute.text, Attribute.text, List.append_assoc, List.append_assoc] at h
  obtain ⟨hname, hvalue⟩ := first_injective (ha.notMem_name rfl) (hb.notMem_name rfl) h
  obtain ⟨hv, hrests⟩ := value_injective hrest hrest' ⟨by simp, ha.value⟩ ⟨by simp, hb.value⟩ hvalue
  obtain ⟨name, v⟩ := a
  obtain ⟨name', v'⟩ := b
  exact ⟨by rw [Attribute.mk.injEq]; exact ⟨hname, hv⟩, hrests⟩

theorem mediaText_injective {attributes attributes' : List Attribute} (h : ∀ a ∈ attributes, a.Proper)
    (h' : ∀ a ∈ attributes', a.Proper) (heq : mediaText attributes = mediaText attributes') : attributes = attributes' := by
  replace heq := List.append_cancel_left heq
  have hnonempty (b : Attribute) (bs : List Attribute) : join ',' ((b :: bs).map Attribute.text) ≠ [] := by
    intro hnil
    have hmem : '=' ∈ join ',' ((b :: bs).map Attribute.text) :=
      mem_join_of_mem (List.mem_map_of_mem List.mem_cons_self) (by simp [Attribute.text])
    rw [hnil] at hmem
    cases hmem
  have htext (b : Attribute) (bs : List Attribute) :
      ∃ rest, EndsValue rest ∧ join ',' ((b :: bs).map Attribute.text) = b.text ++ rest ∧
        (bs = [] ∧ rest = [] ∨ bs ≠ [] ∧ rest = ',' :: join ',' (bs.map Attribute.text)) := by
    by_cases hbs : bs = []
    · exact ⟨[], .inl rfl, by rw [hbs, List.map_singleton, join_singleton, List.append_nil], .inl ⟨hbs, rfl⟩⟩
    · refine ⟨_, .inr ⟨_, rfl⟩, ?_, .inr ⟨hbs, rfl⟩⟩
      rw [List.map_cons, join_cons _ (by simpa using hbs)]
  induction attributes generalizing attributes' with
  | nil =>
    cases attributes' with
    | nil => rfl
    | cons b bs => exact absurd heq.symm (hnonempty b bs)
  | cons a as ih =>
    cases attributes' with
    | nil => exact absurd heq (hnonempty a as)
    | cons b bs =>
      obtain ⟨rest, hends, hjoin, hcase⟩ := htext a as
      obtain ⟨rest', hends', hjoin', hcase'⟩ := htext b bs
      rw [hjoin, hjoin'] at heq
      obtain ⟨rfl, rfl⟩ := text_injective hends hends' (h a List.mem_cons_self) (h' b List.mem_cons_self) heq
      obtain ⟨rfl, rfl⟩ | ⟨-, hrest⟩ := hcase <;> obtain ⟨rfl, hrest'⟩ | ⟨-, hrest'⟩ := hcase'
      · rfl
      · cases hrest'
      · rw [hrest'] at hrest
        cases hrest
      · rw [hrest'] at hrest
        rw [ih (fun c hc => h c (List.mem_cons_of_mem _ hc)) (fun c hc => h' c (List.mem_cons_of_mem _ hc))
          (List.cons.inj hrest).2.symm]

end pieces

/-! What a write changes among the pieces of a line. -/
section reads
variable {flag flag' : Flag} {value : Text}

/-- The first piece that the search finds reads a value already. -/
def Reads (flag : Flag) (value : Text) (pieces : List Text) : Prop :=
  ∃ piece, pieces.find? (names flag.name) = some piece ∧ piece.drop (flag.name.length + 1) = value

theorem setPiece_eq_self_iff {pieces : List Text} : setPiece flag.name value pieces = pieces ↔ Reads flag value pieces := by
  induction pieces with
  | nil => simp [setPiece, Reads]
  | cons first pieces ih =>
    by_cases hfirst : names flag.name first = true
    · have hsplit := List.take_append_drop (flag.name.length + 1) first
      rw [setPiece, if_pos hfirst, Reads, List.find?_cons_of_pos hfirst, List.cons.injEq, and_iff_left rfl]
      constructor
      · intro heq
        exact ⟨first, rfl, List.append_cancel_left (hsplit.trans heq.symm)⟩
      · rintro ⟨piece, hpiece, rfl⟩
        rw [← Option.some.inj hpiece, hsplit]
    · rw [setPiece_cons_of_not hfirst, List.cons.injEq, and_iff_right rfl, ih, Reads, Reads, List.find?_cons_of_neg hfirst]

theorem names_added (flag : Flag) (value : Text) : names flag.name (flag.name ++ '=' :: value) = true := by
  have hupper : toAsciiUppercase flag.name = flag.name := by cases flag <;> decide
  rw [names, startsWith_iff, toAsciiUppercase, List.map_append, ← toAsciiUppercase, hupper]
  exact ⟨toAsciiUppercase value, by rw [List.append_assoc]; rfl⟩

/-- The write of one flag is none of the pieces the other is looked for in. -/
theorem filter_setPiece_other (hne : flag ≠ flag') (pieces : List Text) :
    (setPiece flag.name value pieces).filter (names flag'.name) = pieces.filter (names flag'.name) := by
  have hother {piece : Text} (hpiece : names flag.name piece = true) : ¬ names flag'.name piece = true :=
    fun hname => hne (name_of_names hpiece hname)
  induction pieces with
  | nil =>
    rw [setPiece, List.filter_cons_of_neg (hother (names_added flag value))]
  | cons first pieces ih =>
    by_cases hfirst : names flag.name first = true
    · rw [setPiece, if_pos hfirst, List.filter_cons_of_neg (hother (names_written hfirst)), List.filter_cons_of_neg (hother hfirst)]
    · rw [setPiece_cons_of_not hfirst, List.filter_cons, List.filter_cons, ih]

theorem find?_setPiece_other (hne : flag ≠ flag') (pieces : List Text) :
    (setPiece flag.name value pieces).find? (names flag'.name) = pieces.find? (names flag'.name) := by
  rw [← List.head?_filter, ← List.head?_filter, filter_setPiece_other hne]

/-- What is left of the pieces a flag is looked for in shows whether the write changed any. -/
theorem filter_setPiece_eq_iff {pieces : List Text} :
    (setPiece flag.name value pieces).filter (names flag.name) = pieces.filter (names flag.name) ↔
      setPiece flag.name value pieces = pieces := by
  refine ⟨fun heq => ?_, fun heq => by rw [heq]⟩
  induction pieces with
  | nil =>
    rw [setPiece] at heq
    rw [List.filter_cons_of_pos (names_added flag value)] at heq
    cases heq
  | cons first pieces ih =>
    by_cases hfirst : names flag.name first = true
    · rw [setPiece, if_pos hfirst] at heq ⊢
      rw [List.filter_cons_of_pos (names_written hfirst), List.filter_cons_of_pos hfirst] at heq
      rw [(List.cons.inj heq).1]
    · rw [setPiece_cons_of_not hfirst] at heq ⊢
      rw [List.filter_cons_of_neg hfirst, List.filter_cons_of_neg hfirst] at heq
      rw [ih heq]

theorem length_of_names {piece : Text} (h : names flag.name piece = true) : flag.name.length + 1 ≤ piece.length := by
  have hle := (startsWith_iff.mp h).length_le
  rw [toAsciiUppercase, List.length_map, List.length_append, List.length_singleton] at hle
  exact hle

theorem reads_setPiece (pieces : List Text) : Reads flag value (setPiece flag.name value pieces) := by
  induction pieces with
  | nil =>
    rw [setPiece, Reads, List.find?_cons_of_pos (names_added flag value)]
    exact ⟨_, rfl, by rw [List.drop_length_add_append]; rfl⟩
  | cons first pieces ih =>
    by_cases hfirst : names flag.name first = true
    · rw [setPiece, if_pos hfirst, Reads, List.find?_cons_of_pos (names_written hfirst)]
      have hlength : (first.take (flag.name.length + 1)).length = flag.name.length + 1 :=
        List.length_take_of_le (length_of_names hfirst)
      exact ⟨_, rfl, List.drop_left' hlength⟩
    · rw [setPiece_cons_of_not hfirst, Reads, List.find?_cons_of_neg hfirst]
      exact ih

theorem length_setPiece_of_find? {pieces : List Text} {piece : Text} (h : pieces.find? (names flag.name) = some piece) :
    (setPiece flag.name value pieces).length = pieces.length := by
  induction pieces with
  | nil => cases h
  | cons first pieces ih =>
    by_cases hfirst : names flag.name first = true
    · rw [setPiece, if_pos hfirst, List.length_cons, List.length_cons]
    · rw [List.find?_cons_of_neg hfirst] at h
      rw [setPiece_cons_of_not hfirst, List.length_cons, List.length_cons, ih h]

def setFlags (value : Text) (pieces : List Text) : List Text :=
  setPiece Flag.autoselect.name value (setPiece Flag.default.name value pieces)

theorem default_ne_autoselect : Flag.default ≠ Flag.autoselect := by decide

theorem setFlags_eq_self_iff {pieces : List Text} : setFlags value pieces = pieces ↔ ∀ flag, Reads flag value pieces := by
  constructor
  · intro heq
    have hdefault : setPiece Flag.default.name value pieces = pieces := by
      rw [← filter_setPiece_eq_iff, ← @filter_setPiece_other _ _ value default_ne_autoselect.symm]
      exact congrArg (List.filter (names Flag.default.name)) heq
    intro flag
    cases flag with
    | default => exact setPiece_eq_self_iff.mp hdefault
    | autoselect =>
      rw [setFlags, hdefault] at heq
      exact setPiece_eq_self_iff.mp heq
  · intro hreads
    rw [setFlags, setPiece_eq_self_iff.mpr (hreads .default), setPiece_eq_self_iff.mpr (hreads .autoselect)]

theorem setFlags_ne_nil (value : Text) (pieces : List Text) : setFlags value pieces ≠ [] := setPiece_ne_nil _ _ _

theorem setFlags_idem (pieces : List Text) : setFlags value (setFlags value pieces) = setFlags value pieces := by
  refine setFlags_eq_self_iff.mpr fun flag => ?_
  cases flag with
  | autoselect => exact reads_setPiece _
  | default =>
    rw [Reads, setFlags, find?_setPiece_other default_ne_autoselect.symm]
    exact reads_setPiece pieces

end reads

end StreamArena.LiveHls.AudioDefaults
