import StreamArena.Library.Separated
import StreamArena.Library.Urls

/-! Hosts of web addresses: numbers of the two address families, and names. -/
namespace Urls
open AsciiText

inductive Host where
  | domain (name : Text)
  | ipv4 (a b c d : Fin 256)
  | ipv6 (address : Fin (2 ^ 128))
  deriving DecidableEq

/-- An address of the first family as four numbers with dots between. -/
def dotted (a b c d : Fin 256) : Text :=
  Separated.join '.' ([a, b, c, d].map fun n => Nat.toDigits 10 n.val)

/-- What the URL standard promises of the host of a web address: the parser reads every
spelling of a number as that number, and writes an address as the standard does. -/
structure Hosts (urls : Library) where
  host : urls.Url → Option Host
  host_https : ∀ url, urls.scheme url = "https".toList → (host url).isSome = true
  hostStr_domain : ∀ url name, host url = some (.domain name) → urls.hostStr url = some name
  hostStr_ipv4 : ∀ url a b c d, host url = some (.ipv4 a b c d) → urls.hostStr url = some (dotted a b c d)
  hostStr_ipv6 : ∀ url address, host url = some (.ipv6 address) →
    ∃ groups, urls.hostStr url = some ('[' :: groups ++ [']']) ∧ ':' ∈ groups

/-- A name as its resolver reads it: in one case, without the dot of the root. -/
def canonicalName (name : Text) : Text := toAsciiLowercase (trimEndDots name)

def labels (name : Text) : List Text := (canonicalName name).splitOn '.'

/-- A name below a public top: one of several labels whose last is not set apart for the
machine itself or for the inside of a network. -/
def IsPublicName (name : Text) : Prop :=
  2 ≤ (labels name).length ∧
    ∀ top ∈ (labels name).getLast?, top ≠ "localhost".toList ∧ top ≠ "local".toList ∧
      top ≠ "internal".toList

theorem toDigits_byte (n : Fin 256) : 1 ≤ (Nat.toDigits 10 n.val).length ∧
    (Nat.toDigits 10 n.val).length ≤ 3 ∧ (Nat.toDigits 10 n.val).all Char.isDigit = true := by
  revert n
  decide +kernel

theorem digit_ne_dot {c : Char} (h : c.isDigit = true) : c ≠ '.' := by
  rintro rfl
  exact absurd h (by decide)

theorem dot_not_mem_toDigits (n : Fin 256) : '.' ∉ Nat.toDigits 10 n.val := fun hin =>
  digit_ne_dot (List.all_eq_true.mp (toDigits_byte n).2.2 _ hin) rfl

theorem splitOn_dotted (a b c d : Fin 256) :
    (dotted a b c d).splitOn '.' = [a, b, c, d].map fun n => Nat.toDigits 10 n.val := by
  refine List.splitOn_intercalate '.' (fun group hgroup => ?_) (by simp)
  obtain ⟨n, -, rfl⟩ := List.mem_map.mp hgroup
  exact dot_not_mem_toDigits n

theorem isDottedQuad_dotted (a b c d : Fin 256) : isDottedQuad (dotted a b c d) = true := by
  rw [isDottedQuad, splitOn_dotted]
  simp [toDigits_byte]

theorem trimEndDots_concat {s : Text} {c : Char} (hc : c ≠ '.') : trimEndDots (s ++ [c]) = s ++ [c] :=
  List.rdropWhile_concat_neg _ _ _ (by simpa using hc)

/-- Numbers are their own canonical name. -/
theorem canonicalName_dotted (a b c d : Fin 256) : canonicalName (dotted a b c d) = dotted a b c d := by
  have hsplit : dotted a b c d =
      Separated.join '.' ([a, b, c].map fun n => Nat.toDigits 10 n.val) ++ '.' :: Nat.toDigits 10 d.val := by
    rw [dotted, show [a, b, c, d] = [a, b, c] ++ [d] from rfl, List.map_append]
    exact Separated.join_concat (by simp) _
  have hlast : trimEndDots (dotted a b c d) = dotted a b c d := by
    have hne : Nat.toDigits 10 d.val ≠ [] := Nat.toDigits_ne_nil
    have hdigits : Nat.toDigits 10 d.val = (Nat.toDigits 10 d.val).dropLast ++
        [(Nat.toDigits 10 d.val).getLast hne] := (List.dropLast_append_getLast hne).symm
    have hdot : (Nat.toDigits 10 d.val).getLast hne ≠ '.' :=
      digit_ne_dot (List.all_eq_true.mp (toDigits_byte d).2.2 _ (List.getLast_mem hne))
    rw [hsplit, hdigits, ← List.cons_append, ← List.append_assoc, trimEndDots_concat hdot]
  have hchar : ∀ x ∈ dotted a b c d, x.toLower = x := by
    intro x hx
    refine toLower_of_not_isUpper fun hupper => ?_
    have hcases : x.isDigit = true ∨ x = '.' := by
      have hmem : x ∈ ['.'].intercalate ([a, b, c, d].map fun n => Nat.toDigits 10 n.val) := hx
      simp only [List.intercalate, List.map_cons, List.map_nil, List.intersperse, List.flatten_cons,
        List.flatten_nil, List.mem_append, List.mem_singleton, List.not_mem_nil, or_false] at hmem
      have hdigit (n : Fin 256) (hn : x ∈ Nat.toDigits 10 n.val) : x.isDigit = true :=
        List.all_eq_true.mp (toDigits_byte n).2.2 x hn
      rcases hmem with h | h | h | h | h | h | h
      · exact Or.inl (hdigit a h)
      · exact Or.inr h
      · exact Or.inl (hdigit b h)
      · exact Or.inr h
      · exact Or.inl (hdigit c h)
      · exact Or.inr h
      · exact Or.inl (hdigit d h)
    rcases hcases with hdigit | rfl
    · have hrange : 48 ≤ x.toNat ∧ x.toNat ≤ 57 := by
        simpa [Char.isDigit, UInt32.le_iff_toNat_le] using hdigit
      have hupper := isUpper_iff.mp hupper
      omega
    · exact absurd hupper (by decide)
  rw [canonicalName, hlast, toAsciiLowercase]
  exact (List.map_congr_left hchar).trans (List.map_id _)

theorem mem_canonicalName {s : Text} {c : Char} (hc : c ≠ '.') (hlower : c.toLower = c) (h : c ∈ s) :
    c ∈ canonicalName s := by
  refine List.mem_map.mpr ⟨c, ?_, hlower⟩
  have hsplit : c ∈ s.rdropWhile (· == '.') ++ s.rtakeWhile (· == '.') := by
    rwa [List.rdropWhile_append_rtakeWhile]
  cases List.mem_append.mp hsplit with
  | inl hin => exact hin
  | inr hdots =>
    have hdot : (c == '.') = true := List.mem_rtakeWhile_imp (p := (· == '.')) hdots
    exact absurd (beq_iff_eq.mp hdot) hc

/-- The last of several labels stands behind a dot. -/
theorem exists_last_label {name : Text} (h : '.' ∈ canonicalName name) :
    2 ≤ (labels name).length ∧ ∀ top ∈ (labels name).getLast?, ('.' :: top) <:+ canonicalName name := by
  obtain ⟨before, after, hsplit, -⟩ := List.eq_append_cons_of_mem h
  have hpieces : labels name = before.splitOn '.' ++ after.splitOn '.' := by
    rw [labels, hsplit, List.splitOn_append_cons_self]
  have hbefore := List.length_pos_iff.mpr (List.splitOn_ne_nil '.' before)
  have hafter := List.length_pos_iff.mpr (List.splitOn_ne_nil '.' after)
  have hlen : 2 ≤ (labels name).length := by rw [hpieces, List.length_append]; omega
  refine ⟨hlen, fun top htop => ?_⟩
  have hconcat : labels name = (labels name).dropLast ++ [top] :=
    (List.dropLast_append_getLast? top htop).symm
  have hne : (labels name).dropLast ≠ [] := by
    rw [← List.length_pos_iff, List.length_dropLast]
    omega
  refine ⟨Separated.join '.' (labels name).dropLast, ?_⟩
  rw [← Separated.join_concat hne, ← hconcat]
  exact List.intercalate_splitOn '.'

/-- A plain address as a parsed URL. -/
def plainUrl (text : Text) (h : isPlain text = true) : plain.Url := ⟨text, h⟩

def byte (group : Text) : Option (Fin 256) :=
  (List.finRange 256).find? fun n => Nat.toDigits 10 n.val == group

/-- Four bytes with dots between, or a name. -/
def Host.ofPlain (text : Text) : Host :=
  match (text.splitOn '.').map byte with
  | [some a, some b, some c, some d] => .ipv4 a b c d
  | _ => .domain text

theorem toDigits_of_byte {group : Text} {n : Fin 256} (h : byte group = some n) :
    Nat.toDigits 10 n.val = group := by
  have hn : (Nat.toDigits 10 n.val == group) = true :=
    List.find?_some (p := fun m : Fin 256 => Nat.toDigits 10 m.val == group) h
  exact beq_iff_eq.mp hn

theorem Host.ofPlain_ipv4 {text : Text} {a b c d : Fin 256} (h : ofPlain text = .ipv4 a b c d) :
    text = dotted a b c d := by
  unfold ofPlain at h
  split at h
  · next hbytes =>
    obtain ⟨ha, hb, hc, hd⟩ := Host.ipv4.inj h
    rw [ha, hb, hc, hd] at hbytes
    have hgroups : text.splitOn '.' = [a, b, c, d].map fun n => Nat.toDigits 10 n.val := by
      obtain ⟨g₁, l₁, hl₁, h₁, hbytes⟩ := List.map_eq_cons_iff.mp hbytes
      obtain ⟨g₂, l₂, rfl, h₂, hbytes⟩ := List.map_eq_cons_iff.mp hbytes
      obtain ⟨g₃, l₃, rfl, h₃, hbytes⟩ := List.map_eq_cons_iff.mp hbytes
      obtain ⟨g₄, l₄, rfl, h₄, hbytes⟩ := List.map_eq_cons_iff.mp hbytes
      obtain rfl := List.map_eq_nil_iff.mp hbytes
      rw [hl₁, ← toDigits_of_byte h₁, ← toDigits_of_byte h₂, ← toDigits_of_byte h₃, ← toDigits_of_byte h₄]
      rfl
    rw [dotted, ← hgroups]
    exact (List.intercalate_splitOn '.').symm
  · cases h

theorem Host.ofPlain_cases (text : Text) :
    ofPlain text = .domain text ∨ ∃ a b c d, ofPlain text = .ipv4 a b c d := by
  unfold ofPlain
  split
  · exact Or.inr ⟨_, _, _, _, rfl⟩
  · exact Or.inl rfl

/-- The hosts of plain addresses. -/
def plainHosts : Hosts plain where
  host url := (plain.hostStr url).map Host.ofPlain
  host_https url _ := by
    have h := url.2
    unfold isPlain at h
    cases hsplit : splitPlain url.1 with
    | none => rw [hsplit, Bool.and_false] at h; cases h
    | some parts => simp [plain, hsplit]
  hostStr_domain url name h := by
    obtain ⟨text, htext, hname⟩ := Option.map_eq_some_iff.mp h
    rcases Host.ofPlain_cases text with hdomain | ⟨a, b, c, d, hipv4⟩
    · rw [htext, Host.domain.inj (hdomain.symm.trans hname)]
    · cases hipv4.symm.trans hname
  hostStr_ipv4 url a b c d h := by
    obtain ⟨text, htext, hname⟩ := Option.map_eq_some_iff.mp h
    rw [htext, Host.ofPlain_ipv4 hname]
  hostStr_ipv6 url address h := by
    obtain ⟨text, -, hname⟩ := Option.map_eq_some_iff.mp h
    rcases Host.ofPlain_cases text with hdomain | ⟨a, b, c, d, hipv4⟩
    · cases hdomain.symm.trans hname
    · cases hipv4.symm.trans hname

end Urls
