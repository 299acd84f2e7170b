import Mathlib

/-! Text as the sequence of its Unicode scalar values, with the operations a
program applies to identifiers: ASCII case folding, trimming, prefix tests. -/
namespace AsciiText

abbrev Text := List Char

def toAsciiLowercase (s : Text) : Text := s.map Char.toLower

def toAsciiUppercase (s : Text) : Text := s.map Char.toUpper

def eqIgnoreAsciiCase (s t : Text) : Bool := toAsciiLowercase s == toAsciiLowercase t

def startsWith (s pre : Text) : Bool := pre.isPrefixOf s

def stripPrefix (s pre : Text) : Option Text := pre.isPrefixOf? s

/-- Split at the first occurrence of a separator. -/
def splitOnce (sep : Text) : Text → Option (Text × Text)
  | [] => if sep.isEmpty then some ([], []) else none
  | c :: s =>
    if sep.isPrefixOf (c :: s) then some ([], (c :: s).drop sep.length)
    else (splitOnce sep s).map fun parts => (c :: parts.1, parts.2)

def endsWith (s suffix : Text) : Bool := suffix.isSuffixOf s

def contains (s sub : Text) : Bool := (splitOnce sub s).isSome

/-- Code points with the Unicode White_Space property. -/
def isWhitespace (c : Char) : Bool :=
  (9 ≤ c.toNat && c.toNat ≤ 13) || c.toNat == 0x20 || c.toNat == 0x85 || c.toNat == 0xA0 ||
    c.toNat == 0x1680 || (0x2000 ≤ c.toNat && c.toNat ≤ 0x200A) || c.toNat == 0x2028 ||
    c.toNat == 0x2029 || c.toNat == 0x202F || c.toNat == 0x205F || c.toNat == 0x3000

def trim (s : Text) : Text := (s.dropWhile isWhitespace).rdropWhile isWhitespace

def trimStart (s : Text) : Text := s.dropWhile isWhitespace

def trimEnd (s : Text) : Text := s.rdropWhile isWhitespace

/-- The lines of a text, each without its line feed and a carriage return before that. -/
def lines (s : Text) : List Text :=
  let pieces := s.splitOn '\n'
  pieces.dropLast.map (fun line => if line.getLast? = some '\r' then line.dropLast else line) ++
    pieces.getLast?.toList.filter fun line => !line.isEmpty

/-- Length in UTF-8 bytes. -/
def byteLength (s : Text) : Nat := (s.map Char.utf8Size).sum

theorem trim_nil : trim [] = [] := rfl

theorem isUpper_iff {c : Char} : c.isUpper = true ↔ 65 ≤ c.toNat ∧ c.toNat ≤ 90 := by
  simp [Char.isUpper, UInt32.le_iff_toNat_le]

theorem toLower_of_not_isUpper {c : Char} (h : ¬ c.isUpper = true) : c.toLower = c := by
  have hc : ¬ (c.val ≥ 'A'.val ∧ c.val ≤ 'Z'.val) := by simpa [Char.isUpper] using h
  rw [Char.toLower, dif_neg hc]

theorem toNat_toLower_of_isUpper {c : Char} (h : c.isUpper = true) :
    c.toLower.toNat = c.toNat + 32 := by
  have hb := isUpper_iff.mp h
  have hc : c.val ≥ 'A'.val ∧ c.val ≤ 'Z'.val := by simpa [Char.isUpper] using h
  simp only [Char.toLower, hc, and_self, ↓reduceDIte, Char.toNat, UInt32.toNat_add]
  simp only [Char.toNat] at hb
  have hd : ('a'.val - 'A'.val).toNat = 32 := by decide
  rw [hd, Nat.mod_eq_of_lt (by omega)]

@[simp] theorem toLower_toLower (c : Char) : c.toLower.toLower = c.toLower := by
  by_cases h : c.isUpper = true
  · refine toLower_of_not_isUpper fun hl => ?_
    have hb := isUpper_iff.mp h
    have hl := isUpper_iff.mp hl
    rw [toNat_toLower_of_isUpper h] at hl
    omega
  · rw [toLower_of_not_isUpper h, toLower_of_not_isUpper h]

@[simp] theorem toAsciiLowercase_nil : toAsciiLowercase [] = [] := rfl

@[simp] theorem toAsciiLowercase_append (s t : Text) :
    toAsciiLowercase (s ++ t) = toAsciiLowercase s ++ toAsciiLowercase t := List.map_append

@[simp] theorem toAsciiLowercase_idem (s : Text) :
    toAsciiLowercase (toAsciiLowercase s) = toAsciiLowercase s := by
  simp [toAsciiLowercase, Function.comp_def]

theorem startsWith_iff {s pre : Text} : startsWith s pre = true ↔ pre <+: s :=
  List.isPrefixOf_iff_prefix

section
attribute [local simp] splitOnce

theorem splitOnce_eq_some {sep text before rest : Text} (h : splitOnce sep text = some (before, rest)) :
    text = before ++ sep ++ rest := by
  induction text generalizing before with
  | nil =>
    rw [splitOnce] at h
    split at h
    next hempty =>
      cases h
      rw [List.isEmpty_iff.mp hempty]
      rfl
    next => cases h
  | cons d text ih =>
    rw [splitOnce] at h
    split at h
    next hd =>
      obtain ⟨more, hmore⟩ := List.isPrefixOf_iff_prefix.mp hd
      cases h
      rw [← hmore, List.drop_left, List.nil_append]
    next =>
      obtain ⟨parts, hparts, he⟩ := Option.map_eq_some_iff.mp h
      cases he
      rw [List.cons_append, List.cons_append, ← ih hparts]

theorem splitOnce_cons_of_not {sep s : Text} {c : Char} (h : ¬ sep.isPrefixOf (c :: s) = true) :
    splitOnce sep (c :: s) = (splitOnce sep s).map fun parts => (c :: parts.1, parts.2) := by
  rw [splitOnce, if_neg h]

/-- A text is split at the first of a character. -/
theorem splitOnce_append {c : Char} {s : Text} (h : c ∉ s) (t : Text) :
    splitOnce [c] (s ++ c :: t) = some (s, t) := by
  induction s with
  | nil => simp [splitOnce]
  | cons d s ih =>
    obtain ⟨hd, hs⟩ := not_or.mp (fun hor => h (List.mem_cons.mpr hor))
    simp [splitOnce, hd, ih hs]

/-- A text is split at the first of a separator whose start stands nowhere before it. -/
theorem splitOnce_of_notMem {c : Char} {sep s : Text} (h : c ∉ s) (t : Text) :
    splitOnce (c :: sep) (s ++ (c :: sep ++ t)) = some (s, t) := by
  induction s with
  | nil => simp [splitOnce]
  | cons d s ih =>
    obtain ⟨hd, hs⟩ := not_or.mp (fun hor => h (List.mem_cons.mpr hor))
    have hhead : ¬ (c :: sep).isPrefixOf (d :: (s ++ (c :: sep ++ t))) = true := by simp [hd]
    rw [List.cons_append, splitOnce_cons_of_not hhead, ih hs]
    rfl

/-- More text behind the first separator leaves it the first. -/
theorem splitOnce_append_of_some {sep s before rest : Text} (h : splitOnce sep s = some (before, rest)) (more : Text) :
    splitOnce sep (s ++ more) = some (before, rest ++ more) := by
  induction s generalizing before rest with
  | nil =>
    rw [splitOnce] at h
    split at h
    next hempty =>
      obtain ⟨rfl, rfl⟩ := Prod.mk.inj (Option.some.inj h)
      rw [List.isEmpty_iff.mp hempty]
      cases more <;> simp [splitOnce]
    next => cases h
  | cons c s ih =>
    by_cases hhead : sep.isPrefixOf (c :: s) = true
    · rw [splitOnce, if_pos hhead] at h
      obtain ⟨rfl, rfl⟩ := Prod.mk.inj (Option.some.inj h)
      have hlonger : sep.isPrefixOf (c :: (s ++ more)) = true := by
        rw [List.isPrefixOf_iff_prefix] at hhead ⊢
        exact hhead.trans (List.prefix_append (c :: s) more)
      rw [List.cons_append, splitOnce, if_pos hlonger, ← List.cons_append,
        List.drop_append_of_le_length (List.isPrefixOf_iff_prefix.mp hhead).length_le]
    · rw [splitOnce_cons_of_not hhead] at h
      obtain ⟨parts, hparts, heq⟩ := Option.map_eq_some_iff.mp h
      obtain ⟨rfl, rfl⟩ := Prod.mk.inj heq
      have hlater : ¬ sep.isPrefixOf (c :: (s ++ more)) = true := by
        -- the separator found later is within the text, so a match at the head would be too
        have hfits : sep.length ≤ (c :: s).length := by
          rw [splitOnce_eq_some hparts]
          simp only [List.length_cons, List.length_append]
          omega
        intro hmore
        exact hhead (List.isPrefixOf_iff_prefix.mpr (List.prefix_of_prefix_length_le
          (List.isPrefixOf_iff_prefix.mp hmore) (List.prefix_append (c :: s) more) hfits))
      rw [List.cons_append, splitOnce_cons_of_not hlater, ih hparts]
      rfl

/-- The text up to the first separator and the separator, alone, are split there too. -/
theorem splitOnce_before {sep s before rest : Text} (h : splitOnce sep s = some (before, rest)) :
    splitOnce sep (before ++ sep) = some (before, []) := by
  induction s generalizing before rest with
  | nil =>
    rw [splitOnce] at h
    split at h
    next hempty =>
      obtain ⟨rfl, rfl⟩ := Prod.mk.inj (Option.some.inj h)
      rw [List.isEmpty_iff.mp hempty]
      rfl
    next => cases h
  | cons c s ih =>
    by_cases hhead : sep.isPrefixOf (c :: s) = true
    · rw [splitOnce, if_pos hhead] at h
      obtain ⟨rfl, rfl⟩ := Prod.mk.inj (Option.some.inj h)
      cases sep <;> simp [splitOnce]
    · rw [splitOnce_cons_of_not hhead] at h
      obtain ⟨parts, hparts, heq⟩ := Option.map_eq_some_iff.mp h
      obtain ⟨rfl, rfl⟩ := Prod.mk.inj heq
      have hlater : ¬ sep.isPrefixOf (c :: (parts.1 ++ sep)) = true := by
        intro hmore
        refine hhead (List.isPrefixOf_iff_prefix.mpr ((List.isPrefixOf_iff_prefix.mp hmore).trans ?_))
        rw [splitOnce_eq_some hparts, ← List.cons_append]
        exact List.prefix_append _ _
      rw [List.cons_append, splitOnce_cons_of_not hlater, ih hparts]
      rfl

end

theorem stripPrefix_eq_some {s pre t : Text} : stripPrefix s pre = some t ↔ s = pre ++ t := by
  unfold stripPrefix
  induction pre generalizing s with
  | nil => simp [List.isPrefixOf?]
  | cons a pre ih =>
    cases s with
    | nil => simp [List.isPrefixOf?]
    | cons c s =>
      by_cases h : a = c
      · subst h; simp [List.isPrefixOf?, ih]
      · simp [List.isPrefixOf?, h, Ne.symm h]

theorem eqIgnoreAsciiCase_iff {s t : Text} :
    eqIgnoreAsciiCase s t = true ↔ toAsciiLowercase s = toAsciiLowercase t := beq_iff_eq

/-- Case folding neither makes nor removes white space. -/
@[simp] theorem isWhitespace_toLower (c : Char) : isWhitespace c.toLower = isWhitespace c := by
  by_cases h : c.isUpper = true
  · have hb := isUpper_iff.mp h
    have hn := toNat_toLower_of_isUpper h
    rw [Bool.eq_iff_iff]
    simp only [isWhitespace, hn, Bool.or_eq_true, Bool.and_eq_true, decide_eq_true_eq, beq_iff_eq]
    omega
  · rw [toLower_of_not_isUpper h]

theorem trim_toAsciiLowercase (s : Text) : trim (toAsciiLowercase s) = toAsciiLowercase (trim s) := by
  have hw : isWhitespace ∘ Char.toLower = isWhitespace := funext isWhitespace_toLower
  simp only [trim, toAsciiLowercase, List.rdropWhile, List.dropWhile_map, hw, ← List.map_reverse]

theorem dropWhile_eq_self_of_prefix {p : Char → Bool} {s t : Text} (hp : t <+: s)
    (hs : s.dropWhile p = s) : t.dropWhile p = t := by
  cases t with
  | nil => rfl
  | cons c t =>
    obtain ⟨r, rfl⟩ := hp
    rw [List.cons_append, List.dropWhile_cons] at hs
    rw [List.dropWhile_cons]
    split at hs
    · have hlen := congrArg List.length hs
      have hle := (List.dropWhile_sublist (l := t ++ r) p).length_le
      simp only [List.length_cons] at hlen
      omega
    · next hc => rw [if_neg hc]

@[simp] theorem trim_trim (s : Text) : trim (trim s) = trim s := by
  have hd : (trim s).dropWhile isWhitespace = trim s :=
    dropWhile_eq_self_of_prefix (List.rdropWhile_prefix _ _) (List.dropWhile_idempotent _ _)
  calc trim (trim s) = (trim s).rdropWhile isWhitespace := by rw [trim, hd]
    _ = trim s := List.rdropWhile_idempotent _ _

/-- Trimming takes nothing off a text without what it trims. -/
theorem trimWhile_eq_self {p : Char → Bool} {s : Text} (h : ∀ c ∈ s, p c = false) :
    (s.dropWhile p).rdropWhile p = s := by
  have hdrop {t : Text} (ht : ∀ c ∈ t, p c = false) : t.dropWhile p = t := by
    cases t with
    | nil => rfl
    | cons c t => rw [List.dropWhile_cons_of_neg (by simp [ht c List.mem_cons_self])]
  rw [hdrop h, List.rdropWhile, hdrop fun c hc => h c (List.mem_reverse.mp hc), List.reverse_reverse]

theorem trim_eq_self {s : Text} (h : ∀ c ∈ s, isWhitespace c = false) : trim s = s :=
  trimWhile_eq_self h

theorem natDecimal_injective {a b : Nat} (h : a.repr.toList = b.repr.toList) : a = b := by
  rw [Nat.toList_repr, Nat.toList_repr] at h
  rw [← Nat.ofDigitChars_ten_toDigits (n := a), h, Nat.ofDigitChars_ten_toDigits]

/-- Decimal texts of different integers differ. -/
theorem decimal_injective {a b : Int} (h : (toString a).toList = (toString b).toList) : a = b := by
  have hminus (n : Nat) (t : Text) : n.repr.toList ≠ '-' :: t := by
    intro ht
    have hm : '-' ∈ Nat.toDigits 10 n := by
      rw [← Nat.toList_repr, ht]
      exact List.mem_cons_self
    exact absurd (Nat.isDigit_of_mem_toDigits (by omega) (by omega) hm) (by decide)
  rw [Int.toString_eq_repr, Int.toString_eq_repr, Int.repr_eq_if, Int.repr_eq_if] at h
  split at h <;> split at h
  · have hn := natDecimal_injective h
    omega
  · simp only [String.toList_append] at h
    exact absurd h (hminus _ _)
  · simp only [String.toList_append] at h
    exact absurd h.symm (hminus _ _)
  · simp only [String.toList_append] at h
    have hn := natDecimal_injective (List.append_cancel_left h)
    omega

/-- A decimal text is digits after at most a minus sign. -/
theorem mem_decimal {n : Int} {c : Char} (h : c ∈ (toString n).toList) :
    c.isDigit = true ∨ c = '-' := by
  have hdigits {m : Nat} (hm : c ∈ m.repr.toList) : c.isDigit = true := by
    rw [Nat.toList_repr] at hm
    exact Nat.isDigit_of_mem_toDigits (by omega) (by omega) hm
  rw [Int.toString_eq_repr, Int.repr_eq_if] at h
  split at h
  · exact Or.inl (hdigits h)
  · rw [String.toList_append, List.mem_append] at h
    cases h with
    | inl hminus => exact Or.inr (by simpa using hminus)
    | inr hm => exact Or.inl (hdigits hm)

end AsciiText
