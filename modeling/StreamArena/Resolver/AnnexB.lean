import Mathlib
import StreamArena.Library.Outcome
import StreamArena.Resolver.TransportStream

/-! The units of an H.264 stream, each behind a start code, and the bytes that keep start codes out of them
(src/src/resolver/vidzee.rs). -/
namespace StreamArena.Resolver

/-- Where units start, in what is left of a stream from an index on. -/
def startCodes : Nat → Bytes → List Nat
  | index, a :: b :: c :: rest =>
    if [a, b, c] = [0, 0, 1] then (index + 3) :: startCodes (index + 3) rest else startCodes (index + 1) (b :: c :: rest)
  | _, _ => []

def annexBNalUnits (stream : Bytes) : Outcome (List Bytes) := do
  let starts := startCodes 0 stream
  let nexts ← .each (fun next => .guarded (3 ≤ next) (.value (next - 3))) (starts.drop 1)
  let ends := nexts ++ [stream.length]
  .each (fun (start, stop) => do
    let nal ← .guarded (start ≤ stop ∧ stop ≤ stream.length) (.value ((stream.take stop).drop start))
    .value (nal.rdropWhile fun byte => byte == 0)) (starts.zip ends)

/-- The bytes that are read of a unit, behind so many zeros. -/
def withoutPrevention : Nat → Bytes → Bytes
  | _, [] => []
  | zeros, byte :: rest =>
    if 2 ≤ zeros ∧ byte = 3 then withoutPrevention 0 rest
    else byte :: withoutPrevention (if byte = 0 then zeros + 1 else 0) rest

/-! The other direction: units in a stream, and a payload in a unit. -/

structure NalUnit where
  bytes : Bytes
  ends : ∃ front last, bytes = front ++ [last] ∧ last ≠ 0
  noStartCode : ¬ [0, 0, 1] <:+: bytes

def startCode : Bytes := [0, 0, 1]

/-- Units with so many zeros before each start code, and some at the end. -/
def annexB (units : List (Nat × NalUnit)) (trailing : Nat) : Bytes :=
  units.flatMap (fun unit => List.replicate unit.1 0 ++ (startCode ++ unit.2.bytes)) ++ List.replicate trailing 0

def withPrevention : Nat → Bytes → Bytes
  | _, [] => []
  | zeros, byte :: rest =>
    if zeros = 2 ∧ byte.toNat ≤ 3 then 3 :: byte :: withPrevention (if byte = 0 then 1 else 0) rest
    else byte :: withPrevention (if byte = 0 then zeros + 1 else 0) rest

theorem startCodes_span {index : Nat} {bytes : Bytes} : ∀ start ∈ startCodes index bytes, index + 3 ≤ start ∧
    start ≤ index + bytes.length := by
  fun_induction startCodes index bytes with
  | case1 index a b c rest hcode ih =>
    intro start hstart
    simp only [List.length_cons]
    rcases List.mem_cons.mp hstart with rfl | hstart
    · omega
    · have hspan := ih start hstart
      omega
  | case2 index a b c rest hcode ih =>
    intro start hstart
    have hspan := ih start hstart
    simp only [List.length_cons] at hspan ⊢
    omega
  | case3 index bytes hshort =>
    intro start hstart
    cases hstart

theorem startCodes_pairwise (index : Nat) (bytes : Bytes) : (startCodes index bytes).Pairwise fun start next => start + 3 ≤ next := by
  fun_induction startCodes index bytes with
  | case1 index a b c rest hcode ih => exact List.pairwise_cons.mpr ⟨fun next hnext => (startCodes_span next hnext).1, ih⟩
  | case2 index a b c rest hcode ih => exact ih
  | case3 index bytes hshort => exact List.Pairwise.nil

/-- From where to where a unit is cut out. -/
def nalSpans (starts : List Nat) (length : Nat) : List (Nat × Nat) :=
  starts.zip ((starts.drop 1).map (· - 3) ++ [length])

theorem nalSpans_cons (start next : Nat) (rest : List Nat) (length : Nat) :
    nalSpans (start :: next :: rest) length = (start, next - 3) :: nalSpans (next :: rest) length := rfl

theorem nalSpans_inside {starts : List Nat} {length : Nat} (hpairwise : starts.Pairwise fun start next => start + 3 ≤ next)
    (hlength : ∀ start ∈ starts, start ≤ length) : ∀ span ∈ nalSpans starts length, span.1 ≤ span.2 ∧ span.2 ≤ length := by
  induction starts with
  | nil =>
    intro span hspan
    cases hspan
  | cons start rest ih =>
    cases rest with
    | nil =>
      intro span hspan
      have hlast : span = (start, length) := by simpa [nalSpans] using hspan
      rw [hlast]
      exact ⟨hlength start List.mem_cons_self, le_rfl⟩
    | cons next rest =>
      intro span hspan
      rw [nalSpans_cons] at hspan
      rcases List.mem_cons.mp hspan with rfl | hspan
      · have hgap := (List.pairwise_cons.mp hpairwise).1 next List.mem_cons_self
        have hnext := hlength next (List.mem_cons_of_mem _ List.mem_cons_self)
        simp only
        omega
      · exact ih (List.pairwise_cons.mp hpairwise).2 (fun s hs => hlength s (List.mem_cons_of_mem _ hs)) span hspan

def nalOf (stream : Bytes) (span : Nat × Nat) : Bytes :=
  ((stream.take span.2).drop span.1).rdropWhile fun byte => byte == 0

/-- Every stream is cut without an index out of bounds. -/
theorem annexBNalUnits_eq (stream : Bytes) :
    annexBNalUnits stream = .value ((nalSpans (startCodes 0 stream) stream.length).map (nalOf stream)) := by
  have hspan : ∀ start ∈ startCodes 0 stream, 3 ≤ start ∧ start ≤ stream.length := by
    intro start hstart
    have hspan := startCodes_span start hstart
    omega
  have hnexts : Outcome.each (fun next => .guarded (3 ≤ next) (.value (next - 3))) ((startCodes 0 stream).drop 1) =
      .value (((startCodes 0 stream).drop 1).map (· - 3)) := by
    apply Outcome.each_eq_value
    intro next hnext
    rw [Outcome.guarded, if_pos (hspan next (List.mem_of_mem_drop hnext)).1]
  rw [annexBNalUnits]
  simp only [hnexts, Outcome.bind_def, Outcome.value_bind]
  apply Outcome.each_eq_value
  intro span hmem
  have hinside := nalSpans_inside (startCodes_pairwise 0 stream) (fun s hs => (hspan s hs).2) span hmem
  rw [Outcome.guarded, if_pos hinside]
  rfl

/-- Zeros before a start code are passed over. -/
theorem startCodes_zeros (zeros index : Nat) (rest : Bytes) : startCodes index (List.replicate zeros 0 ++ (startCode ++ rest)) =
    (index + zeros + 3) :: startCodes (index + zeros + 3) rest := by
  induction zeros generalizing index with
  | zero => simp [startCode, startCodes]
  | succ zeros ih =>
    have hnext := ih (index + 1)
    have hindex : index + 1 + zeros = index + (zeros + 1) := by omega
    rw [hindex] at hnext
    cases zeros with
    | zero => simp [startCode, startCodes]
    | succ zeros =>
      cases zeros with
      | zero => simp [startCode, startCodes, List.replicate_succ]
      | succ zeros => simpa [startCode, startCodes, List.replicate_succ] using hnext

theorem startCodes_trailing (zeros index : Nat) : startCodes index (List.replicate zeros 0) = [] := by
  induction zeros generalizing index with
  | zero => rfl
  | succ zeros ih =>
    have hnext := ih (index + 1)
    cases zeros with
    | zero => rfl
    | succ zeros =>
      cases zeros with
      | zero => rfl
      | succ zeros => simpa [startCodes, List.replicate_succ] using hnext

/-- No unit starts inside a unit, nor over its end. -/
theorem startCodes_unit {front : Bytes} {last : UInt8} (hlast : last ≠ 0) (hcode : ¬ [0, 0, 1] <:+: front ++ [last]) (index : Nat)
    (rest : Bytes) : startCodes index (front ++ last :: rest) = startCodes (index + front.length + 1) rest := by
  induction front generalizing index with
  | nil =>
    cases rest with
    | nil => rfl
    | cons b rest =>
      cases rest with
      | nil => rfl
      | cons c rest => simp [startCodes, hlast]
  | cons a front ih =>
    have hinner : ¬ [0, 0, 1] <:+: front ++ [last] := fun h => hcode (h.trans (List.suffix_cons a _).isInfix)
    have hnext := ih hinner (index + 1)
    rw [List.length_cons, ← Nat.add_assoc, Nat.add_right_comm index front.length 1, ← hnext]
    cases front with
    | nil =>
      cases rest with
      | nil => rfl
      | cons c rest => simp [startCodes, hlast]
    | cons b front =>
      have hfirst (c : UInt8) (more : Bytes) (h : front ++ [last] = c :: more) : ¬ [a, b, c] = [0, 0, 1] := by
        intro heq
        apply hcode
        have hprefix : [a, b, c] <+: a :: b :: (front ++ [last]) := by
          rw [h]
          exact ⟨more, rfl⟩
        rw [heq] at hprefix
        exact hprefix.isInfix
      cases front with
      | nil =>
        have hne := hfirst last [] rfl
        rw [List.cons_append, List.cons_append, List.nil_append, startCodes, if_neg hne]
      | cons c front =>
        have hne := hfirst c (front ++ [last]) rfl
        rw [List.cons_append, List.cons_append, List.cons_append, startCodes, if_neg hne]

/-- Where the units of a stream start. -/
def unitStarts : Nat → List (Nat × NalUnit) → List Nat
  | _, [] => []
  | index, (zeros, unit) :: units => (index + zeros + 3) :: unitStarts (index + zeros + 3 + unit.bytes.length) units

theorem annexB_cons (zeros : Nat) (unit : NalUnit) (units : List (Nat × NalUnit)) (trailing : Nat) :
    annexB ((zeros, unit) :: units) trailing = List.replicate zeros 0 ++ (startCode ++ (unit.bytes ++ annexB units trailing)) := by
  simp [annexB]

theorem startCodes_annexB (units : List (Nat × NalUnit)) (trailing index : Nat) :
    startCodes index (annexB units trailing) = unitStarts index units := by
  induction units generalizing index with
  | nil => exact startCodes_trailing trailing index
  | cons unit units ih =>
    obtain ⟨zeros, unit⟩ := unit
    obtain ⟨front, last, hbytes, hlast⟩ := unit.ends
    have hcode := unit.noStartCode
    rw [hbytes] at hcode
    have hlength : unit.bytes.length = front.length + 1 := by simp [hbytes]
    rw [annexB_cons, startCodes_zeros, unitStarts, hlength, hbytes, List.append_assoc, List.singleton_append,
      startCodes_unit hlast hcode, ih, Nat.add_assoc _ front.length]

theorem rdropWhile_zeros (unit : NalUnit) (zeros : Nat) :
    (unit.bytes ++ List.replicate zeros 0).rdropWhile (fun byte => byte == 0) = unit.bytes := by
  obtain ⟨front, last, hbytes, hlast⟩ := unit.ends
  induction zeros with
  | zero => simp [hbytes, hlast]
  | succ zeros ih =>
    rw [List.replicate_succ', ← List.append_assoc, List.rdropWhile_concat]
    simpa using ih

/-- What is cut out between the start of a unit and the start code of the next, or the end. -/
theorem nalOf_unit (front : Bytes) (unit : NalUnit) (zeros : Nat) (rest : Bytes) :
    nalOf (front ++ (unit.bytes ++ (List.replicate zeros 0 ++ rest))) (front.length, front.length + unit.bytes.length + zeros) =
      unit.bytes := by
  have hcut : ((front ++ (unit.bytes ++ (List.replicate zeros 0 ++ rest))).take (front.length + unit.bytes.length + zeros)).drop
      front.length = unit.bytes ++ List.replicate zeros 0 := by
    have hjoin : front ++ (unit.bytes ++ (List.replicate zeros 0 ++ rest)) =
        (front ++ (unit.bytes ++ List.replicate zeros 0)) ++ rest := by simp
    have hlength : front.length + unit.bytes.length + zeros = (front ++ (unit.bytes ++ List.replicate zeros 0)).length := by
      simp [Nat.add_assoc]
    rw [hjoin, hlength, List.take_left, List.drop_left]
  rw [nalOf, hcut, rdropWhile_zeros]

theorem nalSpans_annexB (units : List (Nat × NalUnit)) (trailing : Nat) (front : Bytes) :
    (nalSpans (unitStarts front.length units) (front ++ annexB units trailing).length).map (nalOf (front ++ annexB units trailing)) =
      units.map fun unit => unit.2.bytes := by
  induction units generalizing front with
  | nil => rfl
  | cons unit units ih =>
    obtain ⟨zeros, unit⟩ := unit
    have hfront : (front ++ (List.replicate zeros 0 ++ startCode)).length = front.length + zeros + 3 := by
      simp [startCode, Nat.add_assoc]
    have hjoin : front ++ annexB ((zeros, unit) :: units) trailing =
        (front ++ (List.replicate zeros 0 ++ startCode)) ++ (unit.bytes ++ annexB units trailing) := by
      simp [annexB_cons]
    have hbehind : (front ++ (List.replicate zeros 0 ++ startCode) ++ unit.bytes).length =
        front.length + zeros + 3 + unit.bytes.length := by
      rw [List.length_append, hfront]
    have hnext := ih (front ++ (List.replicate zeros 0 ++ startCode) ++ unit.bytes)
    rw [hbehind, List.append_assoc (front ++ _) unit.bytes] at hnext
    rw [hjoin, unitStarts]
    cases units with
    | nil =>
      have hcut := nalOf_unit (front ++ (List.replicate zeros 0 ++ startCode)) unit trailing []
      have hlength : ((front ++ (List.replicate zeros 0 ++ startCode)) ++ (unit.bytes ++ annexB [] trailing)).length =
          front.length + zeros + 3 + unit.bytes.length + trailing := by
        rw [List.length_append, hfront]
        simp [annexB, Nat.add_assoc]
      have htrailing : annexB [] trailing = List.replicate trailing 0 ++ [] := by simp [annexB]
      rw [hfront] at hcut
      rw [hlength, htrailing]
      exact congrArg (fun bytes => [bytes]) hcut
    | cons next units =>
      obtain ⟨zeros', next⟩ := next
      have hcut := nalOf_unit (front ++ (List.replicate zeros 0 ++ startCode)) unit zeros'
        (startCode ++ (next.bytes ++ annexB units trailing))
      rw [hfront, ← annexB_cons] at hcut
      rw [unitStarts] at hnext
      rw [unitStarts, nalSpans_cons, List.map_cons, hnext, Nat.add_sub_cancel, hcut]
      rfl

theorem annexBNalUnits_annexB (units : List (Nat × NalUnit)) (trailing : Nat) :
    annexBNalUnits (annexB units trailing) = .value (units.map fun unit => unit.2.bytes) := by
  rw [annexBNalUnits_eq, startCodes_annexB]
  exact congrArg Outcome.value (nalSpans_annexB units trailing [])

/-- What keeps start codes out is taken out again. -/
theorem withoutPrevention_withPrevention {zeros : Nat} (h : zeros ≤ 2) (bytes : Bytes) :
    withoutPrevention zeros (withPrevention zeros bytes) = bytes := by
  fun_induction withPrevention zeros bytes with
  | case1 zeros => rfl
  | case2 zeros byte rest hprevent ih =>
    have hthree : 2 ≤ zeros ∧ (3 : UInt8) = 3 := ⟨by omega, rfl⟩
    have hread : ¬(2 ≤ 0 ∧ byte = 3) := by simp
    have hnext := ih (by split <;> omega)
    rw [withoutPrevention, if_pos hthree, withoutPrevention, if_neg hread, Nat.zero_add, hnext]
  | case3 zeros byte rest hprevent ih =>
    have hread : ¬(2 ≤ zeros ∧ byte = 3) := by
      rintro ⟨htwo, rfl⟩
      exact hprevent ⟨by omega, by decide⟩
    have hnext := ih (by
      split
      · next hzero =>
        subst hzero
        by_contra hmany
        exact hprevent ⟨by omega, by decide⟩
      · omega)
    rw [withoutPrevention, if_neg hread, hnext]

theorem not_infix_cons {byte : UInt8} {bytes : Bytes} (hbyte : byte ≠ 0) (h : ¬ [0, 0, 1] <:+: bytes) :
    ¬ [0, 0, 1] <:+: byte :: bytes := by
  rw [List.infix_cons_iff]
  simp [List.cons_prefix_cons, Ne.symm hbyte, h]

/-- Nothing in a payload that was written so looks like a start code. -/
theorem noStartCode_withPrevention {zeros : Nat} (h : zeros ≤ 2) (bytes : Bytes) :
    ¬ [0, 0, 1] <:+: List.replicate zeros 0 ++ withPrevention zeros bytes := by
  fun_induction withPrevention zeros bytes with
  | case1 zeros =>
    intro hinfix
    have hone : (1 : UInt8) ∈ List.replicate zeros 0 ++ [] := hinfix.subset (by simp)
    simp at hone
  | case2 zeros byte rest hprevent ih =>
    have hnext := ih (by split <;> omega)
    have hbyte : ¬ [0, 0, 1] <:+: byte :: withPrevention (if byte = 0 then 1 else 0) rest := by
      by_cases hzero : byte = 0
      · simpa [hzero] using hnext
      · rw [if_neg hzero] at hnext ⊢
        exact not_infix_cons hzero hnext
    have hthree := @not_infix_cons 3 _ (by decide) hbyte
    rw [hprevent.1]
    simp only [List.replicate_succ, List.replicate_zero, List.cons_append, List.nil_append]
    rw [List.infix_cons_iff, List.infix_cons_iff]
    simp [List.cons_prefix_cons, hthree]
  | case3 zeros byte rest hprevent ih =>
    by_cases hzero : byte = 0
    · subst hzero
      have hfew : zeros + 1 ≤ 2 := by
        by_contra hmany
        exact hprevent ⟨by omega, by decide⟩
      have hnext := ih (by simpa using hfew)
      simpa [List.replicate_succ', List.append_assoc] using hnext
    · have hnext := ih (by simp [hzero])
      simp only [hzero, if_false, List.replicate_zero, List.nil_append] at hnext ⊢
      have hrest := not_infix_cons hzero hnext
      have hone : zeros = 2 → byte ≠ 1 := by
        rintro htwo rfl
        exact hprevent ⟨htwo, by decide⟩
      interval_cases zeros
      · exact hrest
      · simp only [List.replicate_succ, List.replicate_zero, List.cons_append, List.nil_append]
        rw [List.infix_cons_iff]
        simp [List.cons_prefix_cons, Ne.symm hzero, hrest]
      · simp only [List.replicate_succ, List.replicate_zero, List.cons_append, List.nil_append]
        rw [List.infix_cons_iff, List.infix_cons_iff]
        simp [List.cons_prefix_cons, Ne.symm hzero, Ne.symm (hone rfl), hrest]

theorem ends_tail {byte : UInt8} {rest : Bytes} (hrest : rest ≠ []) (h : ∃ front last, byte :: rest = front ++ [last] ∧ last ≠ 0) :
    ∃ front last, rest = front ++ [last] ∧ last ≠ 0 := by
  obtain ⟨front, last, heq, hlast⟩ := h
  cases front with
  | nil => exact absurd (List.cons.inj heq).2 hrest
  | cons _ front => exact ⟨front, last, (List.cons.inj heq).2, hlast⟩

/-- A payload ends as it did. -/
theorem withPrevention_ends {zeros : Nat} {bytes : Bytes} (h : ∃ front last, bytes = front ++ [last] ∧ last ≠ 0) :
    ∃ front last, withPrevention zeros bytes = front ++ [last] ∧ last ≠ 0 := by
  induction bytes generalizing zeros with
  | nil =>
    obtain ⟨front, last, heq, -⟩ := h
    simp at heq
  | cons byte rest ih =>
    rcases eq_or_ne rest [] with rfl | hrest
    · obtain ⟨front, last, heq, hlast⟩ := h
      have hone : byte ≠ 0 := by
        cases front with
        | nil => rwa [(List.cons.inj heq).1]
        | cons _ front => simp at heq
      rw [withPrevention, withPrevention]
      split
      · exact ⟨[3], byte, rfl, hone⟩
      · exact ⟨[], byte, rfl, hone⟩
    · have hends := ends_tail hrest h
      rw [withPrevention]
      split
      · obtain ⟨front, last, heq, hlast⟩ := @ih (if byte = 0 then 1 else 0) hends
        exact ⟨3 :: byte :: front, last, by rw [heq]; rfl, hlast⟩
      · obtain ⟨front, last, heq, hlast⟩ := @ih (if byte = 0 then zeros + 1 else 0) hends
        exact ⟨byte :: front, last, by rw [heq]; rfl, hlast⟩

end StreamArena.Resolver
