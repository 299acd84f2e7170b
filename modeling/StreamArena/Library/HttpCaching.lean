import StreamArena.Library.Decimal

/-! Header fields, the members of a list field, and how long a response stays fresh. -/
namespace HttpCaching
open AsciiText Decimal

/-- Names in lower case, values without white space around them. -/
abbrev Headers := List (Text × Text)

/-- The values of all fields of a name as one list. -/
def value (headers : Headers) (name : Text) : Option Text :=
  match headers.filter fun field => toAsciiLowercase field.1 == name with
  | [] => none
  | fields => some ([',', ' '].intercalate (fields.map Prod.snd))

inductive Quoting where
  | outside
  | inside
  | escaped
  deriving DecidableEq

def Quoting.next : Quoting → Char → Quoting
  | .outside, c => if c = '"' then .inside else .outside
  | .inside, c => if c = '"' then .outside else if c = '\\' then .escaped else .inside
  | .escaped, _ => .inside

def Quoting.run (q : Quoting) (s : Text) : Quoting := s.foldl Quoting.next q

/-- The members of a list: a comma within quotes separates nothing. -/
def members : Quoting → Text → List Text
  | _, [] => [[]]
  | q, c :: s =>
    if c = ',' ∧ q = .outside then [] :: members .outside s
    else (members (q.next c) s).modifyHead (List.cons c)

section directives
variable (isSpace : Char → Bool)

def strip (s : Text) : Text := (s.dropWhile isSpace).rdropWhile isSpace

def name (member : Text) : Text :=
  toAsciiLowercase (strip isSpace ((strip isSpace member).takeWhile (· != '=')))

/-- Seconds as digits, which may stand in quotes. -/
def deltaSeconds (argument : Text) : Option Nat :=
  match argument with
  | '"' :: quoted => if quoted.getLast? = some '"' then parseDigits quoted.dropLast else none
  | digits => parseDigits digits

def seconds (member : Text) : Option Nat :=
  deltaSeconds (((strip isSpace member).dropWhile (· != '=')).tail.dropWhile isSpace)

def directives (policy : Text) : List Text := members .outside policy

/-- What the directives of a name allow; one that is no number allows nothing. -/
def lifetimes (policy : Text) : List Nat :=
  ((directives policy).filter fun member =>
    name isSpace member == "max-age".toList || name isSpace member == "s-maxage".toList).map
    fun member => (seconds isSpace member).getD 0

variable (parseDate : Text → Option Int)

/-- Whole seconds of a date in milliseconds, which is the present where none is given. -/
def dateSeconds (headers : Headers) (now : Int) : Option Int :=
  match value headers "date".toList with
  | none => some now
  | some text => (parseDate text).map (· / 1000)

def ageSeconds (headers : Headers) : Option Nat :=
  match value headers "age".toList with
  | none => some 0
  | some text => parseDigits text

/-- How old a response is at least, by its age and by its date. -/
def currentAge (headers : Headers) (now : Int) : Option Int :=
  (ageSeconds headers).bind fun age =>
    (dateSeconds parseDate headers now).map fun date => max 0 (max (now - date) age)

/-- The seconds for which a response is fresh yet where its origin says so: the least of
its lifetimes, or else until it expires. -/
def explicitFreshness (headers : Headers) (now : Int) : Option Int :=
  match (lifetimes isSpace ((value headers "cache-control".toList).getD [])).min? with
  | some lifetime => some (((currentAge parseDate headers now).map fun age => (lifetime : Int) - age).getD 0)
  | none =>
    (value headers "expires".toList).map fun text =>
      (((parseDate text).bind fun expires =>
        (dateSeconds parseDate headers now).bind fun date =>
          (currentAge parseDate headers now).map fun age => expires / 1000 - date - age)).getD 0

end directives

variable {isSpace : Char → Bool}

theorem members_ne_nil (q : Quoting) (s : Text) : members q s ≠ [] := by
  cases s with
  | nil => simp [members]
  | cons c s =>
    rw [members]
    split
    · simp
    · exact fun h => members_ne_nil _ s (List.modifyHead_eq_nil_iff.mp h)

/-- Every comma splits at least where the members split. -/
theorem flatMap_splitOn_members (q : Quoting) (s : Text) :
    (members q s).flatMap (List.splitOn ',') = s.splitOn ',' := by
  induction s generalizing q with
  | nil => simp [members]
  | cons c s ih =>
    rw [members, List.splitOn_cons_eq_if_modifyHead]
    split
    · next h => simp [h.1, ih]
    · next h =>
      have hrest := ih (q.next c)
      cases hm : members (q.next c) s with
      | nil => exact absurd hm (members_ne_nil _ s)
      | cons m ms =>
        rw [hm, List.flatMap_cons] at hrest
        rw [List.modifyHead_cons, List.flatMap_cons, List.splitOn_cons_eq_if_modifyHead, ← hrest]
        split
        · rfl
        · cases hp : m.splitOn ',' with
          | nil => exact absurd hp (List.splitOn_ne_nil _ _)
          | cons p ps => rfl

/-- No comma of a member stands outside its quotes. -/
theorem quoting_before_comma {q : Quoting} {s : Text} {m : Text} {ms : List Text}
    (h : members q s = m :: ms) :
    (∀ before after, m = before ++ ',' :: after → q.run before ≠ .outside) ∧
      ∀ m' ∈ ms, ∀ before after, m' = before ++ ',' :: after → Quoting.outside.run before ≠ .outside := by
  induction s generalizing q m ms with
  | nil =>
    obtain ⟨rfl, rfl⟩ := List.cons_eq_cons.mp h
    simp
  | cons c s ih =>
    rw [members] at h
    split at h
    · obtain ⟨rfl, rfl⟩ := List.cons_eq_cons.mp h
      cases hs : members .outside s with
      | nil => exact absurd hs (members_ne_nil _ s)
      | cons m ms =>
        obtain ⟨hhead, htail⟩ := ih hs
        refine ⟨by simp, fun m' hm' => ?_⟩
        cases List.mem_cons.mp hm' with
        | inl he => rw [he]; exact hhead
        | inr hin => exact htail m' hin
    · next hc =>
      cases hs : members (q.next c) s with
      | nil => exact absurd hs (members_ne_nil _ s)
      | cons m' ms' =>
        rw [hs, List.modifyHead_cons] at h
        obtain ⟨rfl, rfl⟩ := List.cons_eq_cons.mp h
        obtain ⟨hhead, htail⟩ := ih hs
        refine ⟨fun before after hm => ?_, htail⟩
        cases before with
        | nil =>
          rintro rfl
          exact hc ⟨(List.cons_eq_cons.mp hm).1, rfl⟩
        | cons d before =>
          obtain ⟨rfl, hafter⟩ := List.cons_eq_cons.mp hm
          exact hhead before after hafter

theorem quoting_of_mem_directives {policy m before after : Text} (h : m ∈ directives policy)
    (hm : m = before ++ ',' :: after) : Quoting.outside.run before ≠ .outside := by
  cases hs : members .outside policy with
  | nil => exact absurd hs (members_ne_nil _ policy)
  | cons m' ms =>
    obtain ⟨hhead, htail⟩ := quoting_before_comma hs
    rw [directives, hs] at h
    cases List.mem_cons.mp h with
    | inl he => exact hhead before after (he ▸ hm)
    | inr hin => exact htail m hin before after hm

section stripping
variable {s : Text} {c : Char}

/-- Stripping takes white space off both ends. -/
theorem exists_strip (isSpace : Char → Bool) (s : Text) :
    ∃ a b, s = a ++ strip isSpace s ++ b ∧ (∀ c ∈ a, isSpace c = true) ∧ ∀ c ∈ b, isSpace c = true := by
  refine ⟨s.takeWhile isSpace, (s.dropWhile isSpace).rtakeWhile isSpace, ?_, fun c hc => ?_, fun c hc => ?_⟩
  · rw [List.append_assoc, strip, List.rdropWhile_append_rtakeWhile, List.takeWhile_append_dropWhile]
  · exact List.mem_takeWhile_imp hc
  · exact List.mem_rtakeWhile_imp hc

theorem dropWhile_append_cons {p : Char → Bool} (hc : p c = false) (s t : Text) :
    (s ++ c :: t).dropWhile p = s.dropWhile p ++ c :: t := by
  rw [List.dropWhile_append]
  split
  · next h => rw [List.isEmpty_iff.mp h, List.dropWhile_cons_of_neg (by simp [hc]), List.nil_append]
  · rfl

theorem strip_append_cons (hc : isSpace c = false) (s t : Text) :
    strip isSpace (s ++ c :: t) = s.dropWhile isSpace ++ c :: t.rdropWhile isSpace := by
  rw [strip, dropWhile_append_cons hc, List.rdropWhile, List.reverse_append, List.reverse_cons,
    List.append_assoc, List.singleton_append, dropWhile_append_cons hc]
  simp [List.rdropWhile]

theorem mem_strip (hc : isSpace c = false) : c ∈ strip isSpace s ↔ c ∈ s := by
  obtain ⟨a, b, hs, ha, hb⟩ := exists_strip isSpace s
  have hnot {t : Text} (ht : ∀ d ∈ t, isSpace d = true) : c ∉ t := fun hin => by
    rw [ht c hin] at hc
    cases hc
  conv_rhs => rw [hs]
  simp [hnot ha, hnot hb]

theorem strip_dropWhile (s : Text) : strip isSpace (s.dropWhile isSpace) = strip isSpace s := by
  rw [strip, List.dropWhile_idempotent, strip]

theorem strip_strip (s : Text) : strip isSpace (strip isSpace s) = strip isSpace s := by
  have hd : (strip isSpace s).dropWhile isSpace = strip isSpace s :=
    dropWhile_eq_self_of_prefix (List.rdropWhile_prefix _ _) (List.dropWhile_idempotent _ _)
  calc strip isSpace (strip isSpace s) = (strip isSpace s).rdropWhile isSpace := by rw [strip, hd]
    _ = strip isSpace s := List.rdropWhile_idempotent _ _

/-- Name and value of a member with an equals sign. -/
theorem assignment {n : Text} (hspace : isSpace '=' = false) (hn : '=' ∉ n) (v : Text) :
    name isSpace (n ++ '=' :: v) = toAsciiLowercase (strip isSpace n) ∧
      seconds isSpace (n ++ '=' :: v) =
        deltaSeconds ((v.rdropWhile isSpace).dropWhile isSpace) := by
  have hne : ∀ c ∈ n.dropWhile isSpace, (c != '=') = true := fun c hc =>
    bne_iff_ne.mpr fun he => hn (he ▸ (List.dropWhile_sublist _).subset hc)
  constructor
  · rw [name, strip_append_cons hspace, List.takeWhile_append_of_pos hne,
      List.takeWhile_cons_of_neg (by simp), List.append_nil, strip_dropWhile]
  · rw [seconds, strip_append_cons hspace, List.dropWhile_append_of_pos hne,
      List.dropWhile_cons_of_neg (by simp), List.tail_cons]

/-- A member without an equals sign is its name. -/
theorem name_of_not_mem (hspace : isSpace '=' = false) (h : '=' ∉ s) :
    name isSpace s = toAsciiLowercase (strip isSpace s) := by
  have hne : ∀ c ∈ strip isSpace s, (c != '=') = true := fun c hc =>
    bne_iff_ne.mpr fun he => h ((mem_strip hspace).mp (he ▸ hc))
  rw [name, List.takeWhile_eq_self_iff.mpr hne, strip_strip]

theorem run_of_not_mem (h : '"' ∉ s) : Quoting.outside.run s = .outside := by
  induction s with
  | nil => rfl
  | cons c s ih =>
    obtain ⟨hc, hs⟩ := List.ne_and_not_mem_of_not_mem_cons h
    have hnext : Quoting.outside.next c = .outside := if_neg (Ne.symm hc)
    rw [Quoting.run, List.foldl_cons, hnext]
    exact ih hs

theorem run_append (q : Quoting) (s t : Text) : q.run (s ++ t) = (q.run s).run t :=
  List.foldl_append

theorem run_inside {s : Text} (h : ∀ c ∈ s, c.isDigit = true) : Quoting.inside.run s = .inside := by
  induction s with
  | nil => rfl
  | cons c s ih =>
    have hc := h c List.mem_cons_self
    have hnext : Quoting.inside.next c = .inside := by
      rw [Quoting.next, if_neg (by rintro rfl; exact absurd hc (by decide)),
        if_neg (by rintro rfl; exact absurd hc (by decide))]
    rw [Quoting.run, List.foldl_cons, hnext]
    exact ih fun d hd => h d (List.mem_cons_of_mem c hd)

theorem digits_of_parseDigits {n : Nat} (h : parseDigits s = some n) : ∀ c ∈ s, c.isDigit = true := by
  unfold parseDigits at h
  split at h
  · next hs => exact List.all_eq_true.mp hs.2
  · cases h

/-- Seconds leave the quotes they open. -/
theorem run_of_deltaSeconds {n : Nat} (h : deltaSeconds s = some n) : Quoting.outside.run s = .outside := by
  unfold deltaSeconds at h
  split at h
  · next quoted =>
    split at h
    · next hlast =>
      have hsplit : quoted = quoted.dropLast ++ ['"'] := (List.dropLast_append_getLast? '"' hlast).symm
      have hopen : Quoting.outside.run ('"' :: quoted) = Quoting.inside.run quoted := rfl
      rw [hopen, hsplit, run_append, run_inside (digits_of_parseDigits h)]
      rfl
    · cases h
  · exact run_of_not_mem fun hquote => absurd (digits_of_parseDigits h _ hquote) (by decide)

theorem run_of_value (hquote : isSpace '"' = false) {v : Text} {n : Nat}
    (h : deltaSeconds ((v.rdropWhile isSpace).dropWhile isSpace) = some n) :
    Quoting.outside.run v = .outside := by
  have hspaces {t : Text} (ht : ∀ c ∈ t, isSpace c = true) : '"' ∉ t := fun hin => by
    rw [ht _ hin] at hquote
    cases hquote
  have hv : v = (v.rdropWhile isSpace).takeWhile isSpace ++
      (v.rdropWhile isSpace).dropWhile isSpace ++ v.rtakeWhile isSpace := by
    rw [List.takeWhile_append_dropWhile, List.rdropWhile_append_rtakeWhile]
  have hbefore := run_of_not_mem (hspaces fun c hc => List.mem_takeWhile_imp (l := v.rdropWhile isSpace) hc)
  have hafter := run_of_not_mem (hspaces fun c hc => List.mem_rtakeWhile_imp (l := v) hc)
  rw [hv, run_append, run_append, hbefore, run_of_deltaSeconds h, hafter]

end stripping

/-- A plain name: no quote, no separator. -/
def IsPlainName (n : Text) : Prop := ',' ∉ n ∧ '"' ∉ n

theorem not_mem_of_toAsciiLowercase {s : Text} {c : Char} (hc : c.toLower = c)
    (h : c ∉ toAsciiLowercase s) : c ∉ s :=
  fun hin => h (List.mem_map.mpr ⟨c, hin, hc⟩)

/-- Split at every comma, a text has a piece for each of its directives: the directive
itself, or one of its name whose seconds stand in quotes that the piece leaves open. -/
theorem exists_piece (hspace : isSpace '=' = false ∧ isSpace ',' = false ∧ isSpace '"' = false)
    {policy m : Text} (hm : m ∈ directives policy) (hname : IsPlainName (name isSpace m)) :
    ∃ piece ∈ policy.splitOn ',', name isSpace piece = name isSpace m ∧
      (piece = m ∨ seconds isSpace piece = none) := by
  obtain ⟨heq, hcomma, hquote⟩ := hspace
  have hmem : ∀ piece ∈ m.splitOn ',', piece ∈ policy.splitOn ',' := fun piece hpiece =>
    flatMap_splitOn_members .outside policy ▸ List.mem_flatMap.mpr ⟨m, hm, hpiece⟩
  by_cases hin : ',' ∈ m
  · obtain ⟨piece, rest, rfl, hpiece⟩ := List.eq_append_cons_of_mem hin
    refine ⟨piece, hmem piece (by simp [List.splitOn_append_cons_self_of_not_mem hpiece]), ?_⟩
    have hassign : '=' ∈ piece := by
      by_contra hno
      -- a comma before the first equals sign would be part of the name
      have hcontra : ',' ∈ name isSpace (piece ++ ',' :: rest) := by
        by_cases hrest : '=' ∈ rest
        · obtain ⟨n, v, rfl, hn⟩ := List.eq_append_cons_of_mem hrest
          have hsplit : piece ++ ',' :: (n ++ '=' :: v) = (piece ++ ',' :: n) ++ '=' :: v := by simp
          rw [hsplit, (assignment heq (by simp [hno, hn]) v).1]
          exact List.mem_map.mpr ⟨',', (mem_strip hcomma).mpr (by simp), rfl⟩
        · rw [name_of_not_mem heq (by simp [hno, hrest])]
          exact List.mem_map.mpr ⟨',', (mem_strip hcomma).mpr (by simp), rfl⟩
      exact hname.1 hcontra
    obtain ⟨n, v, rfl, hn⟩ := List.eq_append_cons_of_mem hassign
    have hwhole : n ++ '=' :: v ++ ',' :: rest = n ++ '=' :: (v ++ ',' :: rest) := by simp
    obtain ⟨hnamePiece, hsecondsPiece⟩ := assignment heq hn v
    have hnameWhole := (assignment heq hn (v ++ ',' :: rest)).1
    rw [← hwhole] at hnameWhole
    refine ⟨hnamePiece.trans hnameWhole.symm, Or.inr ?_⟩
    cases hseconds : seconds isSpace (n ++ '=' :: v) with
    | none => rfl
    | some k =>
      refine absurd ?_ (quoting_of_mem_directives hm rfl)
      have hnquote : '"' ∉ n := fun hq =>
        not_mem_of_toAsciiLowercase rfl (hnameWhole ▸ hname.2) ((mem_strip hquote).mpr hq)
      have hvalue : Quoting.outside.run v = .outside :=
        run_of_value hquote (hsecondsPiece.symm.trans hseconds)
      rw [run_append, run_of_not_mem hnquote]
      exact hvalue
  · refine ⟨m, hmem m (by rw [List.splitOn_eq_singleton hin]; exact List.mem_singleton_self m), rfl,
      Or.inl rfl⟩

/-- A name stands in its member between white space or the equals sign. -/
theorem exists_name (hspace : isSpace '=' = false) (m : Text) :
    ∃ a n b, m = a ++ n ++ b ∧ toAsciiLowercase n = name isSpace m ∧ (∀ c ∈ a, isSpace c = true) ∧
      ∀ c, b.head? = some c → isSpace c = true ∨ c = '=' := by
  by_cases hin : '=' ∈ m
  · obtain ⟨n, v, rfl, hn⟩ := List.eq_append_cons_of_mem hin
    obtain ⟨a, b, hsplit, ha, hb⟩ := exists_strip isSpace n
    refine ⟨a, strip isSpace n, b ++ '=' :: v, ?_, (assignment hspace hn v).1.symm, ha, fun c hc => ?_⟩
    · conv_lhs => rw [hsplit]
      simp
    · cases b with
      | nil => exact Or.inr (Option.some.inj hc).symm
      | cons d b => exact Or.inl (hb c (Option.some.inj hc ▸ List.mem_cons_self))
  · obtain ⟨a, b, hsplit, ha, hb⟩ := exists_strip isSpace m
    refine ⟨a, strip isSpace m, b, hsplit, (name_of_not_mem hspace hin).symm, ha, fun c hc => ?_⟩
    exact Or.inl (hb c (List.mem_of_mem_head? hc))

/-- A piece of a text stands between separators. -/
theorem exists_context {sep : Char} {s piece : Text} (h : piece ∈ s.splitOn sep) :
    ∃ a b, s = a ++ piece ++ b ∧ (∀ c, a.getLast? = some c → c = sep) ∧
      ∀ c, b.head? = some c → c = sep := by
  by_cases hin : sep ∈ s
  · obtain ⟨first, rest, rfl, hfirst⟩ := List.eq_append_cons_of_mem hin
    rw [List.splitOn_append_cons_self_of_not_mem hfirst] at h
    cases List.mem_cons.mp h with
    | inl he => exact ⟨[], sep :: rest, by simp [he], by simp, fun c hc => (Option.some.inj hc).symm⟩
    | inr hrest =>
      obtain ⟨a, b, hab, ha, hb⟩ := exists_context hrest
      refine ⟨first ++ sep :: a, b, by rw [hab]; simp, fun c hc => ?_, hb⟩
      cases a using List.reverseRecOn with
      | nil => simpa [eq_comm] using hc
      | append_singleton a d =>
        refine ha c ?_
        rw [← List.cons_append, ← List.append_assoc, List.getLast?_concat] at hc
        rw [List.getLast?_concat, hc]
  · rw [List.splitOn_eq_singleton hin, List.mem_singleton] at h
    exact ⟨[], [], by simp [h], by simp, by simp⟩
termination_by s.length
decreasing_by simp_all; omega

end HttpCaching
