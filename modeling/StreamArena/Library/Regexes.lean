import StreamArena.Library.AsciiText

/-! Regular expressions with captures. Alternatives are ordered, the left one first and a
repetition longest first, and a search takes the first match at the leftmost place. -/
namespace Regexes
open AsciiText

inductive Regex where
  | empty
  | char (p : Char → Bool)
  | boundary
  | seq (first second : Regex)
  | alt (first second : Regex)
  | star (body : Regex)
  | group (body : Regex)

/-- A place in a text: the character before it, what follows, and what was captured so far. -/
structure Cursor where
  before : Option Char
  rest : Text
  groups : List Text
  deriving DecidableEq

/-- Where a repetition can end, its longest runs first; every turn moves on. -/
def iterate (turn : Cursor → List Cursor) : Nat → Cursor → List Cursor
  | 0, c => [c]
  | fuel + 1, c =>
    ((turn c).filter fun d => d.rest.length < c.rest.length).flatMap (iterate turn fuel) ++ [c]

namespace Regex

/-- Where a match can end, in the order of preference. -/
def run (isWord : Char → Bool) : Regex → Cursor → List Cursor
  | empty, c => [c]
  | char p, c =>
    match c.rest with
    | x :: rest => if p x then [⟨some x, rest, c.groups⟩] else []
    | [] => []
  | boundary, c => if c.before.any isWord ≠ c.rest.head?.any isWord then [c] else []
  | seq first second, c => (first.run isWord c).flatMap (second.run isWord)
  | alt first second, c => first.run isWord c ++ second.run isWord c
  | star body, c => iterate (body.run isWord) c.rest.length c
  | group body, c => (body.run isWord c).map fun d =>
    { d with groups := d.groups ++ [c.rest.take (c.rest.length - d.rest.length)] }

def text (s : Text) : Regex := s.foldr (fun x r => seq (char (· == x)) r) empty

def opt (r : Regex) : Regex := alt r empty

/-- Ends of the matches of a text that do not overlap, each with what it captured. -/
def searchFrom (isWord : Char → Bool) (r : Regex) : Nat → Option Char → Text → List Cursor
  | 0, _, _ => []
  | fuel + 1, before, rest =>
    match (r.run isWord ⟨before, rest, []⟩).head?, rest with
    | some found, x :: more =>
      if found.rest.length < rest.length then found :: searchFrom isWord r fuel found.before found.rest
      else found :: searchFrom isWord r fuel (some x) more
    | some found, [] => [found]
    | none, x :: more => searchFrom isWord r fuel (some x) more
    | none, [] => []

def captures (isWord : Char → Bool) (r : Regex) (s : Text) : List (List Text) :=
  (r.searchFrom isWord (s.length + 1) none s).map Cursor.groups

def isMatch (isWord : Char → Bool) (r : Regex) (s : Text) : Bool :=
  !(r.searchFrom isWord (s.length + 1) none s).isEmpty

/-- The first match at a place, when it takes something. -/
def matchAt (isWord : Char → Bool) (r : Regex) (before : Option Char) (rest : Text) : Option Cursor :=
  (r.run isWord ⟨before, rest, []⟩).head?.filter fun found => found.rest.length < rest.length

/-- A text with what its matches leave in their place. -/
def replaceFrom (isWord : Char → Bool) (r : Regex) (f : List Text → Text) : Nat → Option Char → Text → Text
  | 0, _, _ => []
  | _ + 1, _, [] => []
  | fuel + 1, before, x :: more =>
    match r.matchAt isWord before (x :: more) with
    | some found => f found.groups ++ replaceFrom isWord r f fuel found.before found.rest
    | none => x :: replaceFrom isWord r f fuel (some x) more

def replaceAll (isWord : Char → Bool) (r : Regex) (f : List Text → Text) (s : Text) : Text :=
  r.replaceFrom isWord f (s.length + 1) none s

end Regex

variable {isWord : Char → Bool}

section
attribute [local simp] Regex.run

/-- A match ends in what followed its start. -/
theorem Regex.suffix_of_mem_run {r : Regex} {c d : Cursor} (h : d ∈ r.run isWord c) : d.rest <:+ c.rest := by
  induction r generalizing c d with
  | empty =>
    rw [run, List.mem_singleton] at h
    rw [h]
  | char p =>
    rw [run] at h
    split at h
    next x rest hrest =>
      split at h
      next =>
        rw [List.mem_singleton.mp h, hrest]
        exact List.suffix_cons x rest
      next => cases h
    next => cases h
  | boundary =>
    rw [run] at h
    split at h
    next => rw [List.mem_singleton.mp h]
    next => cases h
  | seq first second ihf ihs =>
    obtain ⟨m, hm, hd⟩ := List.mem_flatMap.mp h
    exact (ihs hd).trans (ihf hm)
  | alt first second ihf ihs =>
    obtain h | h := List.mem_append.mp h
    · exact ihf h
    · exact ihs h
  | star body ih =>
    have hiterate (fuel : Nat) : ∀ c d, d ∈ iterate (body.run isWord) fuel c → d.rest <:+ c.rest := by
      induction fuel with
      | zero =>
        intro c d h
        rw [iterate, List.mem_singleton] at h
        rw [h]
      | succ fuel ihf =>
        intro c d h
        obtain h | h := List.mem_append.mp h
        · obtain ⟨m, hm, hd⟩ := List.mem_flatMap.mp h
          exact (ihf m d hd).trans (ih (List.mem_filter.mp hm).1)
        · rw [List.mem_singleton.mp h]
    exact hiterate _ c d h
  | group body ih =>
    obtain ⟨m, hm, rfl⟩ := List.mem_map.mp h
    have hsuffix : m.rest <:+ c.rest := ih hm
    exact hsuffix

theorem Regex.length_lt_of_matchAt {r : Regex} {before : Option Char} {rest : Text} {found : Cursor}
    (h : r.matchAt isWord before rest = some found) : found.rest.length < rest.length := by
  rw [matchAt, Option.filter_eq_some_iff] at h
  exact decide_eq_true_eq.mp h.2

/-- Fuel for the whole text is enough. -/
theorem Regex.replaceFrom_fuel {r : Regex} {f : List Text → Text} {fuel fuel' : Nat} {before : Option Char} {s : Text}
    (h : s.length < fuel) (h' : s.length < fuel') :
    r.replaceFrom isWord f fuel before s = r.replaceFrom isWord f fuel' before s := by
  induction fuel generalizing fuel' before s with
  | zero => omega
  | succ fuel ih =>
    obtain ⟨fuel', rfl⟩ := Nat.exists_eq_add_of_lt h'
    cases s with
    | nil => rfl
    | cons x more =>
      rw [List.length_cons] at h
      rw [replaceFrom, replaceFrom]
      cases hfound : r.matchAt isWord before (x :: more) with
      | none => exact congrArg (x :: ·) (ih (by omega) (by simp only [List.length_cons]; omega))
      | some found =>
        have hlt := length_lt_of_matchAt hfound
        rw [List.length_cons] at hlt
        exact congrArg (f found.groups ++ ·) (ih (by omega) (by simp only [List.length_cons]; omega))

/-- What is captured stands in the text. -/
theorem Regex.mem_of_mem_groups {r : Regex} {c d : Cursor} (h : d ∈ r.run isWord c) {g : Text} (hg : g ∈ d.groups) {x : Char}
    (hx : x ∈ g) : g ∈ c.groups ∨ x ∈ c.rest := by
  induction r generalizing c d with
  | empty =>
    rw [run, List.mem_singleton] at h
    exact .inl (h ▸ hg)
  | char p =>
    rw [run] at h
    split at h
    next y rest hrest =>
      split at h
      next =>
        rw [List.mem_singleton.mp h] at hg
        exact .inl hg
      next => cases h
    next => cases h
  | boundary =>
    rw [run] at h
    split at h
    next => exact .inl (List.mem_singleton.mp h ▸ hg)
    next => cases h
  | seq first second ihf ihs =>
    obtain ⟨m, hm, hd⟩ := List.mem_flatMap.mp h
    rcases ihs hd hg with hold | hrest
    · exact ihf hm hold
    · exact .inr ((suffix_of_mem_run hm).subset hrest)
  | alt first second ihf ihs =>
    rcases List.mem_append.mp h with h | h
    · exact ihf h hg
    · exact ihs h hg
  | star body ih =>
    have hiterate (fuel : Nat) : ∀ c d, d ∈ iterate (body.run isWord) fuel c → g ∈ d.groups → g ∈ c.groups ∨ x ∈ c.rest := by
      induction fuel with
      | zero =>
        intro c d h hg
        rw [iterate, List.mem_singleton] at h
        exact .inl (h ▸ hg)
      | succ fuel ihf =>
        intro c d h hg
        rcases List.mem_append.mp h with h | h
        · obtain ⟨m, hm, hd⟩ := List.mem_flatMap.mp h
          have hturn := (List.mem_filter.mp hm).1
          rcases ihf m d hd hg with hold | hrest
          · exact ih hturn hold
          · exact .inr ((suffix_of_mem_run hturn).subset hrest)
        · exact .inl (List.mem_singleton.mp h ▸ hg)
    exact hiterate _ c d h hg
  | group body ih =>
    obtain ⟨m, hm, rfl⟩ := List.mem_map.mp h
    rcases List.mem_append.mp hg with hg | hg
    · exact ih hm hg
    · rw [List.mem_singleton.mp hg] at hx
      exact .inr (List.mem_of_mem_take hx)

end

def Regex.groupless : Regex → Bool
  | empty => true
  | char _ => true
  | boundary => true
  | seq first second => first.groupless && second.groupless
  | alt first second => first.groupless && second.groupless
  | star _ => false
  | group _ => false

theorem Regex.groups_of_groupless {r : Regex} (hr : r.groupless = true) {c d : Cursor} (h : d ∈ r.run isWord c) : d.groups = c.groups := by
  induction r generalizing c d with
  | empty => rw [List.mem_singleton.mp h]
  | char p =>
    rw [run] at h
    split at h
    next x rest hrest =>
      split at h
      next => rw [List.mem_singleton.mp h]
      next => cases h
    next => cases h
  | boundary =>
    rw [run] at h
    split at h
    next => rw [List.mem_singleton.mp h]
    next => cases h
  | seq first second ihf ihs =>
    rw [groupless, Bool.and_eq_true] at hr
    obtain ⟨m, hm, hd⟩ := List.mem_flatMap.mp h
    rw [ihs hr.2 hd, ihf hr.1 hm]
  | alt first second ihf ihs =>
    rw [groupless, Bool.and_eq_true] at hr
    rcases List.mem_append.mp h with h | h
    · exact ihf hr.1 h
    · exact ihs hr.2 h
  | star body ih => cases hr
  | group body ih => cases hr

/-- Nothing comes into a text but by its replacements. -/
theorem Regex.mem_replaceAll {r : Regex} {f : List Text → Text} {s : Text} {x : Char} (h : x ∈ r.replaceAll isWord f s)
    (hf : ∀ groups, (∀ g ∈ groups, x ∉ g) → x ∉ f groups) : x ∈ s := by
  have hfrom (fuel : Nat) : ∀ before s, x ∈ r.replaceFrom isWord f fuel before s → x ∈ s := by
    induction fuel with
    | zero =>
      intro before s h
      cases h
    | succ fuel ih =>
      intro before s h
      cases s with
      | nil => cases h
      | cons y more =>
        rw [replaceFrom] at h
        cases hfound : r.matchAt isWord before (y :: more) with
        | none =>
          rw [hfound] at h
          rcases List.mem_cons.mp h with rfl | h
          · exact List.mem_cons_self
          · exact List.mem_cons_of_mem y (ih _ _ h)
        | some found =>
          rw [hfound] at h
          rw [matchAt, Option.filter_eq_some_iff] at hfound
          have hrun := List.mem_of_mem_head? hfound.1
          by_contra hx
          rcases List.mem_append.mp h with h | h
          · refine hf found.groups (fun g hg hxg => ?_) h
            rcases mem_of_mem_groups hrun hg hxg with hold | hrest
            · cases hold
            · exact hx hrest
          · exact hx ((suffix_of_mem_run hrun).subset (ih _ _ h))
  exact hfrom _ none s h

/-- Expressions without repetitions and word boundaries that do not match a character. -/
def Regex.avoids (sep : Char) : Regex → Bool
  | empty => true
  | char p => !p sep
  | boundary => false
  | seq first second => first.avoids sep && second.avoids sep
  | alt first second => first.avoids sep && second.avoids sep
  | star _ => false
  | group body => body.avoids sep

def Cursor.extend (c : Cursor) (more : Text) : Cursor := { c with rest := c.rest ++ more }

/-- Such an expression does not look past the character. -/
theorem Regex.run_extend {sep : Char} {r : Regex} (h : r.avoids sep = true) (c : Cursor) (more : Text) :
    r.run isWord (c.extend (sep :: more)) = (r.run isWord c).map fun d => d.extend (sep :: more) := by
  induction r generalizing c with
  | empty => rfl
  | char p =>
    obtain ⟨before, rest, groups⟩ := c
    cases rest with
    | nil =>
      have hsep : p sep = false := by simpa [avoids] using h
      simp [run, Cursor.extend, hsep]
    | cons x rest =>
      simp only [run, Cursor.extend, List.cons_append]
      split <;> rfl
  | boundary => cases h
  | seq first second ihf ihs =>
    rw [avoids, Bool.and_eq_true] at h
    rw [run, run, ihf h.1, List.flatMap_map, List.map_flatMap]
    exact List.flatMap_congr fun d _ => ihs h.2 d
  | alt first second ihf ihs =>
    rw [avoids, Bool.and_eq_true] at h
    rw [run, run, ihf h.1, ihs h.2, List.map_append]
  | star body ih => cases h
  | group body ih =>
    rw [run, run, ih h, List.map_map, List.map_map]
    refine List.map_congr_left fun d hd => ?_
    have hsuffix := (suffix_of_mem_run hd).length_le
    have hlength : (c.rest ++ sep :: more).length - (d.rest ++ sep :: more).length = c.rest.length - d.rest.length := by
      rw [List.length_append, List.length_append]
      omega
    simp only [Function.comp, Cursor.extend, hlength]
    rw [List.take_append_of_le_length (by omega)]

/-- Nor does it look at what stands before it. -/
theorem Regex.run_before {sep : Char} {r : Regex} (h : r.avoids sep = true) {c c' : Cursor} (hrest : c.rest = c'.rest)
    (hgroups : c.groups = c'.groups) :
    (r.run isWord c).map (fun d => (d.rest, d.groups)) = (r.run isWord c').map fun d => (d.rest, d.groups) := by
  induction r generalizing c c' with
  | empty => simp [run, hrest, hgroups]
  | char p => rw [run, run, hrest, hgroups]
  | boundary => cases h
  | seq first second ihf ihs =>
    rw [avoids, Bool.and_eq_true] at h
    have hfirst := ihf h.1 hrest hgroups
    rw [run, run]
    generalize first.run isWord c = left at hfirst
    generalize first.run isWord c' = right at hfirst
    induction left generalizing right with
    | nil =>
      rw [List.map_nil, eq_comm, List.map_eq_nil_iff] at hfirst
      rw [hfirst]
    | cons d left ih =>
      cases right with
      | nil => cases hfirst
      | cons d' right =>
        rw [List.map_cons, List.map_cons, List.cons.injEq, Prod.mk.injEq] at hfirst
        rw [List.flatMap_cons, List.flatMap_cons, List.map_append, List.map_append, ihs h.2 hfirst.1.1 hfirst.1.2,
          ih right hfirst.2]
  | alt first second ihf ihs =>
    rw [avoids, Bool.and_eq_true] at h
    rw [run, run, List.map_append, List.map_append, ihf h.1 hrest hgroups, ihs h.2 hrest hgroups]
  | star body ih => cases h
  | group body ih =>
    have hbody := congrArg (List.map fun p : Text × List Text => (p.1, p.2 ++ [c.rest.take (c.rest.length - p.1.length)]))
      (ih h hrest hgroups)
    rw [List.map_map, List.map_map] at hbody
    rw [run, run, List.map_map, List.map_map, ← hrest]
    exact hbody

theorem Regex.matchAt_before {sep : Char} {r : Regex} (h : r.avoids sep = true) (before before' : Option Char) (s : Text) :
    (r.matchAt isWord before s).map (fun d => (d.rest, d.groups)) =
      (r.matchAt isWord before' s).map fun d => (d.rest, d.groups) := by
  have hrun := congrArg List.head? (@run_before isWord _ _ h ⟨before, s, []⟩ ⟨before', s, []⟩ rfl rfl)
  rw [List.head?_map, List.head?_map] at hrun
  rw [matchAt, matchAt]
  generalize (r.run isWord ⟨before, s, []⟩).head? = left at hrun
  generalize (r.run isWord ⟨before', s, []⟩).head? = right at hrun
  cases left with
  | none =>
    cases right with
    | none => rfl
    | some d' => cases hrun
  | some d =>
    cases right with
    | none => cases hrun
    | some d' =>
      rw [Option.map_some, Option.map_some, Option.some.injEq, Prod.mk.injEq] at hrun
      rw [Option.filter_some, Option.filter_some, hrun.1]
      split
      · simp [hrun]
      · rfl

theorem Regex.replaceFrom_before {sep : Char} {r : Regex} {f : List Text → Text} (h : r.avoids sep = true) (fuel : Nat)
    (before before' : Option Char) (s : Text) :
    r.replaceFrom isWord f fuel before s = r.replaceFrom isWord f fuel before' s := by
  induction fuel generalizing before before' s with
  | zero => rfl
  | succ fuel ih =>
    cases s with
    | nil => rfl
    | cons x more =>
      have hmatch := @matchAt_before isWord _ _ h before before' (x :: more)
      rw [replaceFrom, replaceFrom]
      generalize r.matchAt isWord before (x :: more) = left at hmatch
      generalize r.matchAt isWord before' (x :: more) = right at hmatch
      cases left with
      | none =>
        cases right with
        | none => rfl
        | some d' => cases hmatch
      | some d =>
        cases right with
        | none => cases hmatch
        | some d' =>
          rw [Option.map_some, Option.map_some, Option.some.injEq, Prod.mk.injEq] at hmatch
          simp only [hmatch.1, hmatch.2]
          rw [ih]

theorem Regex.matchAt_extend {sep : Char} {r : Regex} (h : r.avoids sep = true) (before : Option Char) (s more : Text) :
    r.matchAt isWord before (s ++ sep :: more) = (r.matchAt isWord before s).map fun d => d.extend (sep :: more) := by
  have hrun := @run_extend isWord _ _ h ⟨before, s, []⟩ more
  rw [Cursor.extend] at hrun
  rw [matchAt, matchAt, hrun, List.head?_map]
  cases (r.run isWord ⟨before, s, []⟩).head? with
  | none => rfl
  | some d => by_cases hlt : d.rest.length < s.length <;> simp [Option.filter_some, Cursor.extend, hlt]

/-- What is done at the start of a text, and that the rest is done by itself. -/
theorem Regex.replaceAll_cons {sep : Char} {r : Regex} {f : List Text → Text} (h : r.avoids sep = true) (x : Char) (more : Text) :
    r.replaceAll isWord f (x :: more) = match r.matchAt isWord none (x :: more) with
      | some found => f found.groups ++ r.replaceAll isWord f found.rest
      | none => x :: r.replaceAll isWord f more := by
  rw [replaceAll, replaceFrom]
  cases hfound : r.matchAt isWord none (x :: more) with
  | none =>
    simp only
    rw [replaceFrom_before h _ (some x) none]
    rfl
  | some found =>
    have hlt := length_lt_of_matchAt hfound
    simp only
    rw [replaceFrom_before h _ found.before none, replaceAll]
    exact congrArg (f found.groups ++ ·) (replaceFrom_fuel hlt (Nat.lt_succ_self _))

/-- So a text is replaced up to the character and from there on by itself. -/
theorem Regex.replaceAll_append {sep : Char} {r : Regex} {f : List Text → Text} (h : r.avoids sep = true) (s more : Text) :
    r.replaceAll isWord f (s ++ sep :: more) = r.replaceAll isWord f s ++ sep :: r.replaceAll isWord f more := by
  have hsep (before : Option Char) (rest : Text) : r.matchAt isWord before (sep :: rest) = none := by
    have hextend := @matchAt_extend isWord _ _ h before [] rest
    cases hempty : r.matchAt isWord before [] with
    | none => simpa [hempty] using hextend
    | some d => exact absurd (length_lt_of_matchAt hempty) (by simp)
  have hfrom (fuel : Nat) : ∀ before s, s.length < fuel → r.replaceFrom isWord f (fuel + (more.length + 1)) before (s ++ sep :: more) =
      r.replaceFrom isWord f fuel before s ++ sep :: r.replaceAll isWord f more := by
    induction fuel with
    | zero =>
      intro before s hlt
      omega
    | succ fuel ih =>
      intro before s hlt
      rw [Nat.add_right_comm]
      cases s with
      | nil =>
        have hempty : r.replaceFrom isWord f (fuel + 1) before [] = [] := rfl
        rw [List.nil_append, replaceFrom.eq_3, hsep, hempty, List.nil_append, replaceAll]
        refine congrArg (sep :: ·) ?_
        rw [replaceFrom_before h _ (some sep) none]
        exact replaceFrom_fuel (by omega) (by omega)
      | cons x s =>
        rw [List.length_cons] at hlt
        have hmatch := @matchAt_extend isWord _ _ h before (x :: s) more
        rw [List.cons_append] at hmatch ⊢
        rw [replaceFrom, replaceFrom, hmatch]
        cases hfound : r.matchAt isWord before (x :: s) with
        | none =>
          simp only [Option.map_none, List.cons_append]
          rw [ih (some x) s (by omega)]
        | some d =>
          have hshort := length_lt_of_matchAt hfound
          rw [List.length_cons] at hshort
          simp only [Option.map_some, Cursor.extend, List.append_assoc]
          rw [ih d.before d.rest (by omega)]
  have hlength : (s ++ sep :: more).length + 1 = (s.length + 1) + (more.length + 1) := by
    rw [List.length_append, List.length_cons]
    omega
  rw [replaceAll, hlength, hfrom _ none s (Nat.lt_succ_self _)]
  rfl

end Regexes
