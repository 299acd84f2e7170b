import Mathlib
import StreamArena.Library.Separated
import StreamArena.LiveHls.Playlist

/-! How an attribute is set in the text of a line: the search for its name, taken piece by piece between the commas. -/
namespace StreamArena.LiveHls.AudioDefaults
open AsciiText Separated

/-- The search passes over a match that no comma precedes. -/
def attributeAt (target : Text) : Bool → Text → Option Nat
  | _, [] => none
  | atStart, c :: s =>
    if (atStart && target.isPrefixOf (c :: s)) = true then some 0 else (attributeAt target (c == ',') s).map (1 + ·)

/-- The first of the pieces between commas that begins with the target, as an offset in their text. -/
def pieceAt (target : Text) : List Text → Option Nat
  | [] => none
  | piece :: pieces => if target.isPrefixOf piece = true then some 0 else (pieceAt target pieces).map (piece.length + 1 + ·)

def names (attrName piece : Text) : Bool := startsWith (toAsciiUppercase piece) (attrName ++ ['='])

/-- What setting an attribute does to the pieces of a line. -/
def setPiece (attrName value : Text) : List Text → List Text
  | [] => [attrName ++ '=' :: value]
  | piece :: pieces =>
    if names attrName piece then (piece.take (attrName.length + 1) ++ value) :: pieces
    else piece :: setPiece attrName value pieces

section search
variable {target : Text}

theorem attributeAt_of_splitOnce_none {s : Text} (h : splitOnce target s = none) (atStart : Bool) :
    attributeAt target atStart s = none := by
  induction s generalizing atStart with
  | nil => rfl
  | cons c s ih =>
    rw [splitOnce] at h
    split at h
    next => cases h
    next hhead =>
      rw [attributeAt, if_neg (by simp [hhead]), ih (Option.map_eq_none_iff.mp h)]
      rfl

theorem attributeAt_of_splitOnce {s before rest : Text} (h : splitOnce target s = some (before, rest)) (htarget : target ≠ [])
    (atStart : Bool) :
    attributeAt target atStart s =
      (attributeAt target (before.getLast?.elim atStart (· == ',')) (target ++ rest)).map (before.length + ·) := by
  induction s generalizing atStart before with
  | nil =>
    rw [splitOnce, if_neg (by simpa using htarget)] at h
    cases h
  | cons c s ih =>
    by_cases hhead : target.isPrefixOf (c :: s) = true
    · have hwhole := splitOnce_eq_some h
      rw [splitOnce, if_pos hhead] at h
      obtain ⟨rfl, rfl⟩ := Prod.mk.inj (Option.some.inj h)
      rw [hwhole, List.nil_append]
      simp
    · rw [splitOnce_cons_of_not hhead] at h
      obtain ⟨parts, hparts, heq⟩ := Option.map_eq_some_iff.mp h
      obtain ⟨rfl, rfl⟩ := Prod.mk.inj heq
      have hlast : (c :: parts.1).getLast?.elim atStart (· == ',') = parts.1.getLast?.elim (c == ',') (· == ',') := by
        cases parts.1 <;> simp [List.getLast?_cons]
      rw [attributeAt, if_neg (by simp [hhead]), ih hparts, hlast, Option.map_map]
      congr 1
      funext n
      simp only [Function.comp_apply, List.length_cons]
      omega

theorem attributeAt_skip {u : Text} (h : ',' ∉ u) (s : Text) :
    attributeAt target false (u ++ s) = (attributeAt target false s).map (u.length + ·) := by
  induction u with
  | nil => simp
  | cons c u ih =>
    have hc : (c == ',') = false := by
      rw [beq_eq_false_iff_ne]
      rintro rfl
      exact h List.mem_cons_self
    rw [List.cons_append, attributeAt, if_neg (by simp), hc, ih fun hmem => h (List.mem_cons_of_mem _ hmem), Option.map_map]
    congr 1
    funext n
    simp only [Function.comp_apply, List.length_cons]
    omega

theorem toUpper_of_not_lower {c : Char} (h : ¬ (97 ≤ c.toNat ∧ c.toNat ≤ 122)) : c.toUpper = c := by
  have hc : ¬ (c.val ≥ 'a'.val ∧ c.val ≤ 'z'.val) := by
    intro hc
    exact h (by simpa [UInt32.le_iff_toNat_le] using hc)
  rw [Char.toUpper, dif_neg hc]

theorem toNat_toUpper_of_lower {c : Char} (h : 97 ≤ c.toNat ∧ c.toNat ≤ 122) : c.toUpper.toNat = c.toNat - 32 := by
  have hc : c.val ≥ 'a'.val ∧ c.val ≤ 'z'.val := by simpa [UInt32.le_iff_toNat_le] using h
  simp only [Char.toUpper, hc, and_self, ↓reduceDIte, Char.toNat, UInt32.toNat_add]
  simp only [Char.toNat] at h
  have hd : ('A'.val - 'a'.val).toNat = 4294967264 := by decide
  rw [hd]
  omega

/-- Below the letters only a character itself is its capital. -/
theorem toUpper_eq_iff {c d : Char} (hd : d.toNat < 65) : c.toUpper = d ↔ c = d := by
  constructor
  · intro h
    by_cases hlower : 97 ≤ c.toNat ∧ c.toNat ≤ 122
    · have hnat := toNat_toUpper_of_lower hlower
      rw [h] at hnat
      omega
    · rwa [toUpper_of_not_lower hlower] at h
  · rintro rfl
    exact toUpper_of_not_lower (by omega)

theorem mem_toAsciiUppercase {d : Char} (hd : d.toNat < 65) {s : Text} : d ∈ toAsciiUppercase s ↔ d ∈ s := by
  simp only [toAsciiUppercase, List.mem_map, toUpper_eq_iff hd, exists_eq_right]

theorem getLast?_toAsciiUppercase {d : Char} (hd : d.toNat < 65) {s : Text} :
    (toAsciiUppercase s).getLast? = some d ↔ s.getLast? = some d := by
  rw [toAsciiUppercase, List.getLast?_map, Option.map_eq_some_iff]
  simp only [toUpper_eq_iff hd, exists_eq_right]

/-- The loop of the search, from where it stands. -/
theorem search_eq {attrName line : Text} (hcomma : ',' ∉ attrName) (fuel : Nat) {before rest : Text}
    (hline : toAsciiUppercase line = before ++ rest) (hfuel : rest.length ≤ fuel) :
    findHlsAttributeStart.search line attrName fuel before.length =
      (attributeAt (attrName ++ ['=']) (before.getLast?.elim true (· == ',')) rest).map (before.length + ·) := by
  have htarget : ',' ∉ attrName ++ ['='] := by simpa using hcomma
  induction fuel generalizing before rest with
  | zero =>
    have hrest : rest = [] := List.eq_nil_of_length_eq_zero (by omega)
    rw [hrest]
    rfl
  | succ fuel ih =>
    have hdrop : (toAsciiUppercase line).drop before.length = rest := by rw [hline, List.drop_left]
    rw [findHlsAttributeStart.search, hdrop]
    cases hsplit : splitOnce (attrName ++ ['=']) rest with
    | none =>
      rw [attributeAt_of_splitOnce_none hsplit]
      rfl
    | some parts =>
      obtain ⟨skipped, later⟩ := parts
      have hrest := splitOnce_eq_some hsplit
      have hbefore : before.length + skipped.length = (before ++ skipped).length := List.length_append.symm
      have htake : toAsciiUppercase (line.take (before ++ skipped).length) = before ++ skipped := by
        rw [toAsciiUppercase, List.map_take, ← toAsciiUppercase, hline, hrest, List.append_assoc, ← List.append_assoc before,
          List.take_left]
      have hlast : skipped.getLast?.elim (before.getLast?.elim true (· == ',')) (· == ',') =
          (before ++ skipped).getLast?.elim true (· == ',') := by
        rw [List.getLast?_append]
        cases skipped.getLast? <;> rfl
      have hcheck : ((before ++ skipped).length = 0 ∨ (line.take (before ++ skipped).length).getLast? = some ',') ↔
          (before ++ skipped).getLast?.elim true (· == ',') = true := by
        rw [← getLast?_toAsciiUppercase (by decide), htake, List.length_eq_zero_iff]
        cases hwhole : (before ++ skipped).getLast? with
        | none => simp [List.getLast?_eq_none_iff.mp hwhole]
        | some c =>
          have hne : before ++ skipped ≠ [] := by
            intro hnil
            rw [hnil] at hwhole
            cases hwhole
          simp [hne]
      rw [attributeAt_of_splitOnce hsplit (by simp), hlast, Option.map_map]
      dsimp only
      rw [hbefore]
      by_cases hvalid : (before ++ skipped).getLast?.elim true (· == ',') = true
      · have hhere : attributeAt (attrName ++ ['=']) true (attrName ++ ['='] ++ later) = some 0 := by
          cases attrName <;> simp [attributeAt]
        rw [if_pos (hcheck.mpr hvalid), hvalid, hhere]
        simp
      · rw [if_neg (hcheck.not.mpr hvalid), Bool.not_eq_true _ |>.mp hvalid, attributeAt_skip htarget]
        have hnext : toAsciiUppercase line = before ++ skipped ++ (attrName ++ ['=']) ++ later := by
          rw [hline, hrest]
          simp only [List.append_assoc]
        have hlen : later.length ≤ fuel := by
          rw [hrest] at hfuel
          simp only [List.length_append, List.length_singleton] at hfuel
          omega
        have hloop := ih hnext hlen
        have hend : (before ++ skipped ++ (attrName ++ ['='])).getLast?.elim true (· == ',') = false := by
          rw [List.getLast?_append, List.getLast?_concat]
          rfl
        have hlength : (before ++ skipped ++ (attrName ++ ['='])).length = (before ++ skipped).length + (attrName.length + 1) := by
          simp [Nat.add_assoc]
        rw [hend, hlength] at hloop
        rw [hloop, Option.map_map]
        congr 1
        funext n
        simp only [Function.comp_apply, List.length_append, List.length_singleton]
        omega

theorem findHlsAttributeStart_eq {attrName line : Text} (hcomma : ',' ∉ attrName) :
    findHlsAttributeStart line attrName = attributeAt (attrName ++ ['=']) true (toAsciiUppercase line) := by
  have hlength : (toAsciiUppercase line).length ≤ line.length := (List.length_map _).le
  have hsearch := search_eq hcomma line.length (List.nil_append _).symm hlength
  rw [findHlsAttributeStart]
  simpa using hsearch

/-- A target without a character is found before it. -/
theorem isPrefixOf_append_cons {d : Char} (hd : d ∉ target) (piece s : Text) :
    target.isPrefixOf (piece ++ d :: s) = target.isPrefixOf piece := by
  rw [Bool.eq_iff_iff, List.isPrefixOf_iff_prefix, List.isPrefixOf_iff_prefix]
  constructor
  · intro h
    by_cases hfits : target.length ≤ piece.length
    · exact List.prefix_of_prefix_length_le h (List.prefix_append _ _) hfits
    · have hpast : piece ++ [d] <+: target := by
        refine List.prefix_of_prefix_length_le ⟨s, by simp⟩ h ?_
        simp only [List.length_append, List.length_singleton]
        omega
      exact absurd (hpast.subset (by simp)) hd
  · exact fun h => h.trans (List.prefix_append _ _)

theorem attributeAt_true_of_not {s : Text} (h : ¬ target.isPrefixOf s = true) : attributeAt target true s = attributeAt target false s := by
  cases s with
  | nil => rfl
  | cons c s => rw [attributeAt, attributeAt, if_neg (by simp [h]), if_neg (by simp)]

theorem attributeAt_join (hcomma : ',' ∉ target) (hne : target ≠ []) {pieces : List Text} (hpieces : pieces ≠ [])
    (hfree : ∀ piece ∈ pieces, ',' ∉ piece) : attributeAt target true (join ',' pieces) = pieceAt target pieces := by
  induction pieces with
  | nil => exact absurd rfl hpieces
  | cons piece pieces ih =>
    have hskip (s : Text) : attributeAt target false (piece ++ s) = (attributeAt target false s).map (piece.length + ·) :=
      attributeAt_skip (hfree piece List.mem_cons_self) s
    have hhit {s : Text} (h : target.isPrefixOf s = true) : attributeAt target true s = some 0 := by
      cases s with
      | nil => exact absurd (List.prefix_nil.mp (List.isPrefixOf_iff_prefix.mp h)) hne
      | cons c s => rw [attributeAt, Bool.true_and, if_pos h]
    cases pieces with
    | nil =>
      rw [join_singleton, pieceAt, pieceAt]
      split
      next h => exact hhit h
      next h =>
        have hnone := hskip []
        rw [List.append_nil] at hnone
        rw [attributeAt_true_of_not h, hnone]
        rfl
    | cons second pieces =>
      rw [join_cons piece (List.cons_ne_nil _ _), pieceAt]
      split
      next h => exact hhit (by rwa [isPrefixOf_append_cons hcomma])
      next h =>
        rw [attributeAt_true_of_not (by rwa [isPrefixOf_append_cons hcomma]), hskip, attributeAt, if_neg (by simp), beq_self_eq_true,
          ih (List.cons_ne_nil _ _) fun p hp => hfree p (List.mem_cons_of_mem _ hp), Option.map_map]
        congr 1
        funext n
        simp only [Function.comp_apply]
        omega

theorem map_join {f : Char → Char} (hf : f ',' = ',') (pieces : List Text) :
    (join ',' pieces).map f = join ',' (pieces.map (List.map f)) := by
  induction pieces with
  | nil => rfl
  | cons piece pieces ih =>
    by_cases hlast : pieces = []
    · rw [hlast, List.map_singleton, join_singleton, join_singleton]
    · rw [join_cons piece hlast, List.map_append, List.map_cons, hf, ih, List.map_cons, join_cons _ (by simpa using hlast)]

theorem toAsciiUppercase_join (pieces : List Text) : toAsciiUppercase (join ',' pieces) = join ',' (pieces.map toAsciiUppercase) :=
  map_join rfl pieces

end search

def yesNo (enabled : Bool) : Text := if enabled then "YES".toList else "NO".toList

/-- The text with the value of the attribute at an offset replaced, or with the attribute added. -/
def writeAt (attrName value line : Text) : Option Nat → Text
  | none => line ++ ',' :: attrName ++ '=' :: value
  | some start =>
    line.take (start + attrName.length + 1) ++ value ++ (line.drop (start + attrName.length + 1)).dropWhile (· != ',')

theorem setHlsBooleanAttribute_eq (line attrName : Text) (enabled : Bool) :
    setHlsBooleanAttribute line attrName enabled = writeAt attrName (yesNo enabled) line (findHlsAttributeStart line attrName) := by
  rw [setHlsBooleanAttribute]
  cases findHlsAttributeStart line attrName <;> rfl

theorem writeAt_append (attrName value piece rest : Text) (found : Option Nat) :
    writeAt attrName value (piece ++ ',' :: rest) (found.map (piece.length + 1 + ·)) =
      piece ++ ',' :: writeAt attrName value rest found := by
  cases found with
  | none => simp [writeAt]
  | some start =>
    have hwhole : piece ++ ',' :: rest = (piece ++ [',']) ++ rest := by simp
    have hstart : piece.length + 1 + start + attrName.length + 1 = (piece ++ [',']).length + (start + attrName.length + 1) := by
      simp only [List.length_append, List.length_singleton]
      omega
    rw [Option.map_some, writeAt, writeAt, hwhole, hstart, List.take_length_add_append, List.drop_length_add_append]
    simp

/-- The value of the first attribute of a text is replaced up to the comma behind it, or to the end. -/
theorem writeAt_zero {attrName value piece rest : Text} (hname : names attrName piece = true) (hfree : ',' ∉ piece)
    (hrest : rest = [] ∨ ∃ more, rest = ',' :: more) :
    writeAt attrName value (piece ++ rest) (some 0) = piece.take (attrName.length + 1) ++ value ++ rest := by
  have hlength : attrName.length + 1 ≤ piece.length := by
    have hle := (startsWith_iff.mp hname).length_le
    rw [toAsciiUppercase, List.length_map, List.length_append, List.length_singleton] at hle
    exact hle
  have hvalue : (piece.drop (attrName.length + 1)).dropWhile (· != ',') = [] := by
    refine List.dropWhile_eq_nil_iff.mpr fun c hc => ?_
    have hne : c ≠ ',' := fun heq => hfree (heq ▸ List.mem_of_mem_drop hc)
    simpa using hne
  rw [writeAt, Nat.zero_add, List.take_append_of_le_length hlength, List.drop_append_of_le_length hlength,
    List.dropWhile_append, hvalue]
  obtain rfl | ⟨more, rfl⟩ := hrest
  · simp
  · simp

theorem setPiece_ne_nil (attrName value : Text) (pieces : List Text) : setPiece attrName value pieces ≠ [] := by
  cases pieces with
  | nil => exact List.cons_ne_nil _ _
  | cons piece pieces =>
    rw [setPiece]
    split <;> exact List.cons_ne_nil _ _

theorem pieceAt_cons (attrName piece : Text) (pieces : List Text) :
    pieceAt (attrName ++ ['=']) ((piece :: pieces).map toAsciiUppercase) =
      if names attrName piece then some 0
      else (pieceAt (attrName ++ ['=']) (pieces.map toAsciiUppercase)).map (piece.length + 1 + ·) := by
  have hlength : (toAsciiUppercase piece).length = piece.length := List.length_map _
  rw [List.map_cons, pieceAt, hlength]
  rfl

theorem writeAt_join {attrName value : Text} {pieces : List Text} (hpieces : pieces ≠ []) (hfree : ∀ piece ∈ pieces, ',' ∉ piece) :
    writeAt attrName value (join ',' pieces) (pieceAt (attrName ++ ['=']) (pieces.map toAsciiUppercase)) =
      join ',' (setPiece attrName value pieces) := by
  induction pieces with
  | nil => exact absurd rfl hpieces
  | cons piece pieces ih =>
    have hfirst := hfree piece List.mem_cons_self
    rw [pieceAt_cons, setPiece]
    cases pieces with
    | nil =>
      by_cases hname : names attrName piece = true
      · have hwrite : writeAt attrName value (piece ++ []) (some 0) = piece.take (attrName.length + 1) ++ value ++ [] :=
          writeAt_zero hname hfirst (.inl rfl)
        rw [List.append_nil, List.append_nil] at hwrite
        rw [if_pos hname, if_pos hname, join_singleton, join_singleton, hwrite]
      · rw [if_neg hname, if_neg hname, join_singleton, setPiece, join_cons piece (List.cons_ne_nil _ _), join_singleton]
        simp [pieceAt, writeAt]
    | cons second pieces =>
      rw [join_cons piece (List.cons_ne_nil second pieces)]
      by_cases hname : names attrName piece = true
      · rw [if_pos hname, if_pos hname, writeAt_zero hname hfirst (.inr ⟨_, rfl⟩), join_cons _ (List.cons_ne_nil second pieces)]
      · rw [if_neg hname, if_neg hname, writeAt_append, join_cons piece (setPiece_ne_nil _ _ _),
          ih (List.cons_ne_nil _ _) fun p hp => hfree p (List.mem_cons_of_mem _ hp)]

/-- Setting an attribute of a line, piece by piece. -/
theorem setHlsBooleanAttribute_join {attrName : Text} (hcomma : ',' ∉ attrName) (enabled : Bool) {pieces : List Text}
    (hpieces : pieces ≠ []) (hfree : ∀ piece ∈ pieces, ',' ∉ piece) :
    setHlsBooleanAttribute (join ',' pieces) attrName enabled = join ',' (setPiece attrName (yesNo enabled) pieces) := by
  have hupper : ∀ piece ∈ pieces.map toAsciiUppercase, ',' ∉ piece := by
    intro piece hpiece
    obtain ⟨original, horiginal, rfl⟩ := List.mem_map.mp hpiece
    rw [mem_toAsciiUppercase (by decide)]
    exact hfree original horiginal
  rw [setHlsBooleanAttribute_eq, findHlsAttributeStart_eq hcomma, toAsciiUppercase_join,
    attributeAt_join (by simpa using hcomma) (by simp) (by simpa using hpieces) hupper, writeAt_join hpieces hfree]

/-! Texts within the pieces of a line. -/

theorem mem_join_of_mem {c : Char} {pieces : List Text} {piece : Text} (hpiece : piece ∈ pieces) (hc : c ∈ piece) :
    c ∈ join ',' pieces := by
  induction pieces with
  | nil => cases hpiece
  | cons first pieces ih =>
    by_cases hlast : pieces = []
    · rw [hlast, List.mem_singleton] at hpiece
      rwa [hlast, join_singleton, ← hpiece]
    · rw [join_cons first hlast, List.mem_append, List.mem_cons]
      obtain rfl | hpiece := List.mem_cons.mp hpiece
      · exact .inl hc
      · exact .inr (.inr (ih hpiece))

theorem contains_iff_infix {s sub : Text} : contains s sub = true ↔ sub <:+: s := by
  rw [contains, Option.isSome_iff_exists]
  constructor
  · rintro ⟨parts, hparts⟩
    exact ⟨parts.1, parts.2, (splitOnce_eq_some hparts).symm⟩
  · intro h
    induction s with
    | nil =>
      rw [List.infix_nil.mp h]
      exact ⟨_, rfl⟩
    | cons c s ih =>
      by_cases hhead : sub.isPrefixOf (c :: s) = true
      · exact ⟨_, by rw [splitOnce, if_pos hhead]⟩
      · obtain hprefix | hlater := List.infix_cons_iff.mp h
        · exact absurd (List.isPrefixOf_iff_prefix.mpr hprefix) hhead
        · obtain ⟨parts, hparts⟩ := ih hlater
          exact ⟨_, by rw [splitOnce_cons_of_not hhead, hparts, Option.map_some]⟩

theorem infix_join {pieces : List Text} {piece : Text} (h : piece ∈ pieces) : piece <:+: join ',' pieces := by
  induction pieces with
  | nil => cases h
  | cons first pieces ih =>
    by_cases hlast : pieces = []
    · rw [hlast, List.mem_singleton] at h
      rw [hlast, join_singleton, h]
    · rw [join_cons first hlast]
      obtain rfl | h := List.mem_cons.mp h
      · exact (List.prefix_append _ _).isInfix
      · exact (ih h).trans ((List.suffix_cons _ _).trans (List.suffix_append _ _)).isInfix

theorem infix_of_infix_append_comma {sub a b : Text} (hcomma : ',' ∉ sub) (h : sub <:+: a ++ ',' :: b) : sub <:+: a ∨ sub <:+: b := by
  obtain ⟨before, after, heq⟩ := h
  obtain ⟨w, rfl, -⟩ | ⟨w, hleft, hright⟩ := List.append_eq_append_iff.mp heq
  · exact .inl ⟨before, w, rfl⟩
  · cases w with
    | nil => exact .inl ⟨before, [], by rw [List.append_nil, hleft, List.append_nil]⟩
    | cons c w =>
      obtain ⟨rfl, rfl⟩ := List.cons_eq_cons.mp hright
      obtain ⟨u, -, rfl⟩ | ⟨u, rfl, hu⟩ := List.append_eq_append_iff.mp hleft
      · exact absurd (by simp) hcomma
      · cases u with
        | nil => exact absurd (by rw [List.nil_append] at hu; exact hu ▸ List.mem_cons_self) hcomma
        | cons d u => exact .inr ⟨u, after, by rw [(List.cons.inj hu).2]; rfl⟩

/-- A text without commas is within one piece. -/
theorem infix_join_iff {sub : Text} (hcomma : ',' ∉ sub) {pieces : List Text} (hne : pieces ≠ []) :
    sub <:+: join ',' pieces ↔ ∃ piece ∈ pieces, sub <:+: piece := by
  refine ⟨fun h => ?_, fun ⟨piece, hpiece, hsub⟩ => hsub.trans (infix_join hpiece)⟩
  induction pieces with
  | nil => exact absurd rfl hne
  | cons first pieces ih =>
    by_cases hlast : pieces = []
    · rw [hlast, join_singleton] at h
      exact ⟨first, List.mem_cons_self, h⟩
    · rw [join_cons first hlast] at h
      obtain hfirst | hrest := infix_of_infix_append_comma hcomma h
      · exact ⟨first, List.mem_cons_self, hfirst⟩
      · obtain ⟨piece, hpiece, hsub⟩ := ih hlast hrest
        exact ⟨piece, List.mem_cons_of_mem _ hpiece, hsub⟩

end StreamArena.LiveHls.AudioDefaults
