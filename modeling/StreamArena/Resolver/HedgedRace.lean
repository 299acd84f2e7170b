import Mathlib.Data.List.MinMax
import StreamArena.Library.Runs
import StreamArena.Library.StaggeredRace

/-! Hedged lookups (src/resolver.rs, src/resolver/external_embed.rs): providers are asked in the order of their rank, the
next one when one fails or is slow, and the hosts below the preferred ones only when those have failed or had their time.
A picture below full HD is kept while the race looks for a better one. -/
namespace StreamArena.Resolver.HedgedRace
open StaggeredRace
variable {α τ : Type*}

structure Waits where
  initialGrace : Nat
  stagger : Nat
  preferredTimeout : Nat

def Waits.pace (waits : Waits) (now : Nat) : Pace := ⟨now, waits.initialGrace, waits.stagger⟩

/-- `futures` start lazily, and their failures carry nothing. -/
def raceStaggeredFirstSuccessWithInitialGrace (futures : List α) (initialGrace stagger now : Nat) : Poll α Unit τ :=
  begin ⟨now, initialGrace, stagger⟩ futures

/-- Where the two nested races stand: with the preferred group, with the group after it, or done. -/
inductive Stage (α τ : Type*)
  | preferred (pace : Pace) (race : Race α Unit) (fallback : List α) (preferredCount deadline : Nat)
  | last (pace : Pace) (race : Race α Unit) (earlier : List α) (offset : Nat)
  | returned (started : List α) (winner : Option (Nat × τ))

def lastPolled (pace : Pace) (earlier : List α) (offset : Nat) : Poll α Unit τ → Stage α τ
  | .pending race => .last pace race earlier offset
  | .ready started (.ok winner) => .returned (earlier ++ started) (some (offset + winner.1, winner.2))
  | .ready started (.error _) => .returned (earlier ++ started) none

def raceFallback (waits : Waits) (now : Nat) (fallback earlier : List α) (preferredCount : Nat) : Stage α τ :=
  lastPolled (waits.pace now) earlier preferredCount
    (raceStaggeredFirstSuccessWithInitialGrace fallback waits.initialGrace waits.stagger now)

def preferredPolled (waits : Waits) (now : Nat) (pace : Pace) (fallback : List α) (preferredCount deadline : Nat) :
    Poll α Unit τ → Stage α τ
  | .pending race => .preferred pace race fallback preferredCount deadline
  | .ready started (.ok winner) => .returned started (some winner)
  | .ready started (.error _) => raceFallback waits now fallback started preferredCount

def racePreferredThenFallback (waits : Waits) (now : Nat) (futures : List α) (preferredCount : Nat) : Stage α τ :=
  let preferredCount := min preferredCount futures.length
  if preferredCount = 0 then
    lastPolled (waits.pace now) [] 0
      (raceStaggeredFirstSuccessWithInitialGrace futures waits.initialGrace waits.stagger now)
  else
    preferredPolled waits now (waits.pace now) (futures.drop preferredCount) preferredCount (now + waits.preferredTimeout)
      (raceStaggeredFirstSuccessWithInitialGrace (futures.take preferredCount) waits.initialGrace waits.stagger now)

/-- What wakes a race: an attempt that ends, the timer, or the end of the preferred group's window. -/
inductive Signal (τ : Type*)
  | completes (index : Nat) (result : Option τ)
  | staggerElapses
  | deadlineElapses

def failure : Option τ → Except Unit τ
  | some value => .ok value
  | none => .error ()

def Stage.signal (waits : Waits) (now : Nat) : Stage α τ → Signal τ → Stage α τ
  | .preferred pace race fallback preferredCount deadline, .completes index result =>
    preferredPolled waits now pace fallback preferredCount deadline (race.wake pace now (.completes index (failure result)))
  | .preferred pace race fallback preferredCount deadline, .staggerElapses =>
    preferredPolled waits now pace fallback preferredCount deadline (race.wake pace now .elapses)
  | .preferred _ race fallback preferredCount _, .deadlineElapses =>
    raceFallback waits now fallback race.started preferredCount
  | .last pace race earlier offset, .completes index result =>
    lastPolled pace earlier offset (race.wake pace now (.completes index (failure result)))
  | .last pace race earlier offset, .staggerElapses => lastPolled pace earlier offset (race.wake pace now .elapses)
  | .last pace race earlier offset, .deadlineElapses => .last pace race earlier offset
  | .returned started winner, _ => .returned started winner

def Stage.started : Stage α τ → List α
  | .preferred _ race _ _ _ => race.started
  | .last _ race earlier _ => earlier ++ race.started
  | .returned started _ => started

def Stage.inFlight : Stage α τ → List (α × Nat)
  | .preferred _ race _ _ _ => race.inFlight
  | .last _ race _ _ => race.inFlight
  | .returned _ _ => []

/-- A stage whose timer is due. -/
def Stage.isDue (now : Nat) : Stage α τ → Bool
  | .preferred _ race _ _ _ => race.wakeAt ≤ now
  | .last _ race _ _ => race.wakeAt ≤ now
  | .returned _ _ => false

/-- A stage whose window is over. -/
def Stage.isOver (now : Nat) : Stage α τ → Bool
  | .preferred _ _ _ _ deadline => deadline ≤ now
  | _ => false

/-- A race for full HD: the attempts know their places, and the lower results lie beside it. -/
structure HdRace (α τ : Type*) where
  clock : Nat
  stage : Stage (α × Nat) τ
  fallbacks : List (Nat × τ)

/-- An attempt's end comes with its place in the list of all attempts, and whether the result is full HD. -/
inductive Event (τ : Type*)
  | completes (position : Nat) (result : Option (τ × Bool))
  | staggerElapses
  | deadlineElapses

/-- What the wrapped attempt resolves to: a lower result counts as none. -/
def preferredResult : Option (τ × Bool) → Option τ
  | some (value, true) => some value
  | _ => none

def lowerResult (index : Nat) : Option (τ × Bool) → List (Nat × τ)
  | some (value, false) => [(index, value)]
  | _ => []

def raceWithHdFallback (waits : Waits) (futures : List α) (preferredCount : Nat) : HdRace α τ where
  clock := 0
  stage := racePreferredThenFallback waits 0 futures.zipIdx preferredCount
  fallbacks := []

/-- The running attempt of a position, with its index in its race. -/
def HdRace.running (s : HdRace α τ) (position : Nat) : Option ((α × Nat) × Nat) :=
  s.stage.inFlight.find? fun entry => entry.1.2 == position

/-- Time passes, and then something happens; what is not under way, or not due, does not. -/
def HdRace.step (waits : Waits) (s : HdRace α τ) (event : Nat × Event τ) : HdRace α τ :=
  let now := s.clock + event.1
  match event.2 with
  | .completes position result =>
    match s.running position with
    | none => { s with clock := now }
    | some (attempt, index) =>
      { clock := now
        stage := s.stage.signal waits now (.completes index (preferredResult result))
        fallbacks := s.fallbacks ++ lowerResult attempt.2 result }
  | .staggerElapses =>
    if s.stage.isDue now then { s with clock := now, stage := s.stage.signal waits now .staggerElapses }
    else { s with clock := now }
  | .deadlineElapses =>
    if s.stage.isOver now then { s with clock := now, stage := s.stage.signal waits now .deadlineElapses }
    else { s with clock := now }

/-- The race's result, once it has one: the full HD winner, or the best-ranked of the lower results. -/
def HdRace.result (s : HdRace α τ) : Option (Option (Nat × τ)) :=
  match s.stage with
  | .returned _ winner => some (winner.or (s.fallbacks.argmin Prod.fst))
  | _ => none

def HdRace.started (s : HdRace α τ) : List Nat := s.stage.started.map Prod.snd

/-- What an observer sees of a run. -/
inductive Seen (τ : Type*)
  | ended (position : Nat) (result : Option (τ × Bool))
  | hedged

def HdRace.sees (s : HdRace α τ) (event : Nat × Event τ) : List (Seen τ) :=
  match event.2 with
  | .completes position result => if (s.running position).isSome then [.ended position result] else []
  | .staggerElapses => if s.stage.isDue (s.clock + event.1) then [.hedged] else []
  | .deadlineElapses => []

structure Watched (α τ : Type*) where
  race : HdRace α τ
  seen : List (Seen τ)

def Watched.step (waits : Waits) (w : Watched α τ) (event : Nat × Event τ) : Watched α τ :=
  ⟨w.race.step waits event, w.seen ++ w.race.sees event⟩

def Watched.start (waits : Waits) (futures : List α) (preferredCount : Nat) : Watched α τ :=
  ⟨raceWithHdFallback waits futures preferredCount, []⟩

namespace Seen

def position : Seen τ → Option Nat
  | ended position _ => some position
  | hedged => none

def winner : Seen τ → Option (Nat × τ)
  | ended position (some (value, true)) => some (position, value)
  | _ => none

def lower : Seen τ → Option (Nat × τ)
  | ended position (some (value, false)) => some (position, value)
  | _ => none

def isHedged : Seen τ → Bool
  | ended _ _ => false
  | hedged => true

/-- After all but a winner the next attempt starts. -/
def launches (seen : Seen τ) : Bool := seen.winner.isNone

end Seen

/-- The positions of the attempts that ended. -/
def ended (seen : List (Seen τ)) : List Nat := seen.filterMap Seen.position

/-- What a run shows of a group of attempts that stand from a position on: they start in their order, one at first and one
more after each failure, each lower result and each time that the timer went off; it goes off no more often than the
waits allow; and what ends was started, and ends once. -/
structure Hedged (waits : Waits) (clock first size : Nat) (started : List Nat) (seen : List (Seen τ)) : Prop where
  order : started = List.range' first (min size (seen.countP Seen.launches + 1))
  ended_started : ∀ position ∈ ended seen, position ∈ started
  once : (ended seen).Nodup
  paced : seen.countP Seen.isHedged ≠ 0 →
    min waits.initialGrace waits.stagger + seen.countP Seen.isHedged * waits.stagger ≤ clock + waits.stagger

/-- The fallback group is free to start: each attempt of the preferred group has ended without full HD, or the group's
window is over. -/
def Released (waits : Waits) (clock preferredCount : Nat) (seen : List (Seen τ)) : Prop :=
  (∀ position < preferredCount, position ∈ ended seen) ∨ waits.preferredTimeout ≤ clock

/-- What a run shows of both groups. -/
structure Observed (waits : Waits) (count preferredCount : Nat) (w : Watched α τ) : Prop where
  groups : ∃ preferred fallback startedFirst startedThen, w.seen = preferred ++ fallback ∧
    w.race.started = startedFirst ++ startedThen ∧
    Hedged waits w.race.clock 0 preferredCount startedFirst preferred ∧
    (startedThen = [] ∧ fallback = [] ∨
      Hedged waits w.race.clock preferredCount (count - preferredCount) startedThen fallback ∧
      Released waits w.race.clock preferredCount preferred ∧ preferred.findSome? Seen.winner = none)
  runs : w.race.result = none →
    w.seen.findSome? Seen.winner = none ∧
      ∃ position ∈ w.race.started, position ∉ ended w.seen ∧ (w.race.running position).isSome
  decides : ∀ result, w.race.result = some result →
    result = (w.seen.findSome? Seen.winner).or ((w.seen.filterMap Seen.lower).argmin Prod.fst) ∧
      (w.seen.findSome? Seen.winner = none → Released waits w.race.clock preferredCount w.seen ∧
        ∀ position, preferredCount ≤ position → position < count → position ∈ ended w.seen)

variable {waits : Waits} {clock later first size index : Nat} {started : List Nat} {seen : List (Seen τ)} {event : Seen τ}

@[simp] theorem ended_append (seen more : List (Seen τ)) : ended (seen ++ more) = ended seen ++ ended more :=
  List.filterMap_append ..

@[simp] theorem ended_singleton (position : Nat) (result : Option (τ × Bool)) :
    ended [Seen.ended position result] = [position] := rfl

@[simp] theorem ended_hedged : ended [(Seen.hedged : Seen τ)] = [] := rfl

/-- Whatever is seen is the end of an attempt or a timer that went off. -/
theorem length_seen (seen : List (Seen τ)) : seen.length = (ended seen).length + seen.countP Seen.isHedged := by
  induction seen with
  | nil => rfl
  | cons event seen ih =>
    cases event with
    | ended position result =>
      have hcons : ended (.ended position result :: seen) = position :: ended seen := rfl
      rw [List.countP_cons_of_neg (by simp [Seen.isHedged]), List.length_cons, ih, hcons, List.length_cons]
      omega
    | hedged =>
      have hcons : ended (.hedged :: seen) = ended seen := rfl
      rw [List.countP_cons_of_pos rfl, List.length_cons, ih, hcons]
      omega

theorem countP_launches (hnone : ∀ event ∈ seen, event.winner = none) :
    seen.countP Seen.launches = (ended seen).length + seen.countP Seen.isHedged := by
  rw [← length_seen, List.countP_eq_length]
  intro event hevent
  rw [Seen.launches, hnone event hevent]
  rfl

theorem preferredResult_eq_some {result : Option (τ × Bool)} {value : τ} (h : preferredResult result = some value) :
    result = some (value, true) := by
  cases result with
  | none => cases h
  | some found =>
    obtain ⟨other, fullHd⟩ := found
    cases fullHd with
    | false => cases h
    | true =>
      obtain rfl := Option.some.inj h
      rfl

theorem winner_of_preferredResult {result : Option (τ × Bool)} (h : preferredResult result = none) (position : Nat) :
    (Seen.ended position result).winner = none := by
  cases result with
  | none => rfl
  | some found =>
    obtain ⟨other, fullHd⟩ := found
    cases fullHd with
    | false => rfl
    | true => cases h

theorem lowerResult_eq (position : Nat) (result : Option (τ × Bool)) :
    lowerResult position result = [Seen.ended position result].filterMap Seen.lower := by
  cases result with
  | none => rfl
  | some found =>
    obtain ⟨other, fullHd⟩ := found
    cases fullHd <;> rfl

theorem noWinner_append {more : List (Seen τ)} (h : ∀ event ∈ seen, event.winner = none)
    (hmore : ∀ event ∈ more, event.winner = none) : ∀ event ∈ seen ++ more, event.winner = none := by
  intro event hevent
  obtain hevent | hevent := List.mem_append.mp hevent
  · exact h event hevent
  · exact hmore event hevent

/-- The places of attempts that are apart in their group are apart. -/
theorem nodup_places {errors : List (Nat × Unit)} (h : (errors.map Prod.fst).Nodup) (first : Nat) :
    (errors.map fun error => first + error.1).Nodup := by
  rw [show (fun error : Nat × Unit => first + error.1) = (first + ·) ∘ Prod.fst from rfl, ← List.map_map]
  exact h.map fun _ _ heq => Nat.add_left_cancel heq

theorem Hedged.mono (h : Hedged waits clock first size started seen) (hlater : clock ≤ later) :
    Hedged waits later first size started seen :=
  ⟨h.order, h.ended_started, h.once, fun hne => (h.paced hne).trans (by omega)⟩

/-- A group of attempts that stand from a position on. -/
structure Stands (first : Nat) (group : List (α × Nat)) : Prop where
  places : group.map Prod.snd = List.range' first group.length

theorem Stands.place {group : List (α × Nat)} (h : Stands first group) {attempt : α × Nat}
    (hindex : group[index]? = some attempt) : attempt.2 = first + index ∧ index < group.length := by
  obtain ⟨hlt, rfl⟩ := List.getElem?_eq_some_iff.mp hindex
  have hget : (group.map Prod.snd)[index]? = some group[index].2 := by simp [hlt]
  rw [h.places, List.getElem?_range' hlt, Nat.one_mul] at hget
  exact ⟨(Option.some.inj hget).symm, hlt⟩

/-- A group's race under way, and what was seen of it. -/
structure Raced (waits : Waits) (clock first : Nat) (group : List (α × Nat)) (pace : Pace) (race : Race (α × Nat) Unit)
    (seen : List (Seen τ)) : Prop where
  stands : Stands first group
  underWay : race.Of pace group (seen.countP Seen.isHedged) clock
  grace : pace.grace = waits.initialGrace
  stagger : pace.stagger = waits.stagger
  ended_eq : ended seen = race.errors.map fun error => first + error.1
  noWinner : ∀ event ∈ seen, event.winner = none

/-- A poll of a group's race, and what was seen of it. -/
def Polled (waits : Waits) (clock first : Nat) (group : List (α × Nat)) (pace : Pace) (seen : List (Seen τ)) :
    Poll (α × Nat) Unit τ → Prop
  | .pending race => Raced waits clock first group pace race seen
  | .ready started (.ok (index, value)) => Hedged waits clock first group.length (started.map Prod.snd) seen ∧
      ∃ before, seen = before ++ [.ended (first + index) (some (value, true))] ∧ ∀ event ∈ before, event.winner = none
  | .ready started (.error _) => Hedged waits clock first group.length (started.map Prod.snd) seen ∧
      (∀ event ∈ seen, event.winner = none) ∧
        ∀ position, first ≤ position → position < first + group.length → position ∈ ended seen

variable {group : List (α × Nat)} {pace : Pace} {race : Race (α × Nat) Unit}

theorem Raced.mono (h : Raced waits clock first group pace race seen) (hlater : clock ≤ later) :
    Raced waits later first group pace race seen :=
  { h with underWay := { h.underWay with
      paced := fun hne => (h.underWay.paced hne).trans (by omega)
      begun := h.underWay.begun.trans hlater } }

theorem Raced.started_eq (h : Raced waits clock first group pace race seen) :
    race.started.map Prod.snd = List.range' first race.started.length := by
  have hmap : race.started.map Prod.snd = (group.map Prod.snd).take race.started.length := by
    rw [← List.map_take, ← h.underWay.started]
  rw [hmap, h.stands.places, List.take_range'_of_length_ge h.underWay.started_le]

theorem Raced.hedged (h : Raced waits clock first group pace race seen) :
    Hedged waits clock first group.length (race.started.map Prod.snd) seen := by
  have hlength : (ended seen).length = race.errors.length := by
    rw [h.ended_eq, List.length_map]
  refine ⟨?_, fun position hmem => ?_, ?_, fun hne => ?_⟩
  · rw [h.started_eq, h.underWay.prompt, countP_launches h.noWinner, hlength]
  · rw [h.ended_eq] at hmem
    obtain ⟨error, herror, rfl⟩ := List.mem_map.mp hmem
    have hlt := List.mem_range.mp (h.underWay.settled.subset (List.mem_append_right _ (List.mem_map_of_mem herror)))
    rw [h.started_eq, List.mem_range'_1]
    omega
  · rw [h.ended_eq]
    exact nodup_places (h.underWay.settled.nodup_iff.mpr List.nodup_range).of_append_right first
  · have hpaced := h.underWay.paced hne
    rw [h.grace, h.stagger] at hpaced
    omega

theorem Raced.place (h : Raced waits clock first group pace race seen) {attempt : α × Nat}
    (hmem : (attempt, index) ∈ race.inFlight) : attempt.2 = first + index :=
  (h.stands.place (h.underWay.running _ hmem)).1

/-- A running attempt has not ended before. -/
theorem Raced.not_ended (h : Raced waits clock first group pace race seen) {attempt : α × Nat}
    (hmem : (attempt, index) ∈ race.inFlight) : first + index ∉ ended seen := by
  intro hended
  rw [h.ended_eq] at hended
  obtain ⟨error, herror, heq⟩ := List.mem_map.mp hended
  have hdisjoint := List.disjoint_of_nodup_append (h.underWay.settled.nodup_iff.mpr List.nodup_range)
  have hindex : error.1 = index := by omega
  exact hdisjoint (List.mem_map_of_mem hmem) (hindex ▸ List.mem_map_of_mem herror)

theorem Raced.mem_started (h : Raced waits clock first group pace race seen) {attempt : α × Nat}
    (hmem : (attempt, index) ∈ race.inFlight) : first + index ∈ race.started.map Prod.snd := by
  have hlt : index < race.started.length := h.underWay.lt_of_running hmem
  rw [h.started_eq, List.mem_range'_1]
  omega

theorem Raced.wins (h : Raced waits clock first group pace race seen) {attempt : α × Nat}
    (hmem : (attempt, index) ∈ race.inFlight) (value : τ) :
    Hedged waits clock first group.length (race.started.map Prod.snd) (seen ++ [.ended (first + index) (some (value, true))]) := by
  have hhedged := h.hedged
  refine ⟨?_, fun position hposition => ?_, ?_, fun hne => ?_⟩
  · rw [hhedged.order, List.countP_append]
    rfl
  · rw [ended_append, List.mem_append] at hposition
    obtain hposition | hposition := hposition
    · exact hhedged.ended_started position hposition
    · obtain rfl := List.mem_singleton.mp hposition
      exact h.mem_started hmem
  · rw [ended_append, ended_singleton, List.nodup_append']
    refine ⟨hhedged.once, List.nodup_singleton _, ?_⟩
    simpa using h.not_ended hmem
  · rw [List.countP_append] at hne ⊢
    exact hhedged.paced hne

/-- What an attempt's end leaves of its race. -/
theorem Raced.completes (h : Raced waits clock first group pace race seen) (hlater : clock ≤ later) {attempt : α × Nat}
    (hmem : (attempt, index) ∈ race.inFlight) (result : Option (τ × Bool)) :
    Polled waits later first group pace (seen ++ [.ended (first + index) result])
      (race.wake pace later (.completes index (failure (preferredResult result)))) := by
  cases hpreferred : preferredResult result with
  | some value =>
    obtain rfl := preferredResult_eq_some hpreferred
    exact ⟨(h.mono hlater).wins hmem value, seen, rfl, h.noWinner⟩
  | none =>
    have hnone : ∀ event ∈ seen ++ [.ended (first + index) result], event.winner = none := by
      refine noWinner_append h.noWinner fun event hevent => ?_
      rw [List.mem_singleton.mp hevent]
      exact winner_of_preferredResult hpreferred _
    have hcount : (seen ++ [Seen.ended (first + index) result]).countP Seen.isHedged = seen.countP Seen.isHedged := by
      rw [List.countP_append]
      rfl
    have hended : ended (seen ++ [Seen.ended (first + index) result]) =
        (race.errors ++ [(index, ())]).map fun error => first + error.1 := by
      rw [ended_append, h.ended_eq, List.map_append]
      rfl
    obtain ⟨next, hwake, herrors, hof⟩ | ⟨started, hwake, hexhausted⟩ := h.underWay.wake_error hlater hmem ()
    · rw [failure, hwake]
      exact ⟨h.stands, hcount ▸ hof, h.grace, h.stagger, herrors ▸ hended, hnone⟩
    · have hlength : race.errors.length + 1 = group.length := by
        simpa using hexhausted.failed.length_eq
      have hplaces : ∀ position, position ∈ ended (seen ++ [Seen.ended (first + index) result]) ↔
          first ≤ position ∧ position < first + group.length := by
        intro position
        rw [hended, List.mem_map]
        constructor
        · rintro ⟨error, herror, rfl⟩
          have hlt := List.mem_range.mp (hexhausted.failed.subset (List.mem_map_of_mem herror))
          omega
        · rintro ⟨hle, hlt⟩
          obtain ⟨error, herror, heq⟩ := List.mem_map.mp
            (hexhausted.failed.symm.subset (List.mem_range.mpr (show position - first < group.length by omega)))
          exact ⟨error, herror, by omega⟩
      rw [failure, hwake]
      refine ⟨⟨?_, fun position hposition => ?_, ?_, fun hne => ?_⟩, hnone, fun position hle hlt => ?_⟩
      · rw [hexhausted.started, h.stands.places, countP_launches hnone, hended, List.length_map, List.length_append,
          List.length_singleton, hlength, Nat.min_eq_left (by omega)]
      · rw [hexhausted.started, h.stands.places, List.mem_range'_1]
        exact (hplaces position).mp hposition
      · rw [hended]
        exact nodup_places (hexhausted.failed.nodup_iff.mpr List.nodup_range) first
      · rw [hcount] at hne ⊢
        exact (h.hedged.mono hlater).paced hne
      · exact (hplaces position).mpr ⟨hle, hlt⟩

/-- What a timer leaves of the race that it was set in. -/
theorem Raced.elapses (h : Raced waits clock first group pace race seen) (hlater : clock ≤ later) (hdue : race.wakeAt ≤ later) :
    Polled waits later first group pace (seen ++ [.hedged]) (race.wake pace later .elapses) := by
  obtain ⟨next, hwake, herrors, hof⟩ : ∃ next : Race (α × Nat) Unit,
      race.wake pace later .elapses = (Poll.pending next : Poll (α × Nat) Unit τ) ∧ next.errors = race.errors ∧
        next.Of pace group (seen.countP Seen.isHedged + 1) later := h.underWay.wake_elapses hlater hdue
  have hcount : (seen ++ [Seen.hedged]).countP Seen.isHedged = seen.countP Seen.isHedged + 1 := by
    rw [List.countP_append]
    rfl
  rw [hwake]
  refine ⟨h.stands, hcount ▸ hof, h.grace, h.stagger, ?_, noWinner_append h.noWinner fun event hevent => ?_⟩
  · rw [ended_append, ended_hedged, List.append_nil, herrors, h.ended_eq]
  · rw [List.mem_singleton.mp hevent]
    rfl

/-- A race as it begins. -/
theorem polled_begin (hstands : Stands first group) (waits : Waits) (now : Nat) :
    Polled waits now first group (waits.pace now) ([] : List (Seen τ))
      (raceStaggeredFirstSuccessWithInitialGrace group waits.initialGrace waits.stagger now) := by
  rw [raceStaggeredFirstSuccessWithInitialGrace]
  by_cases hnil : group = []
  · subst hnil
    refine ⟨⟨rfl, by simp [ended], List.nodup_nil, fun hne => absurd rfl hne⟩, by simp, fun position hle hlt => ?_⟩
    rw [List.length_nil] at hlt
    omega
  · obtain ⟨race, hbegin, herrors, hof⟩ : ∃ race : Race (α × Nat) Unit,
        begin (waits.pace now) group = (Poll.pending race : Poll (α × Nat) Unit τ) ∧ race.errors = [] ∧
          race.Of (waits.pace now) group 0 now := begin_of_ne_nil hnil
    rw [show (⟨now, waits.initialGrace, waits.stagger⟩ : Pace) = waits.pace now from rfl, hbegin]
    exact ⟨hstands, hof, rfl, rfl, by rw [herrors]; rfl, by simp⟩

/-- The preferred group was left: all of it has ended, or its window is over, and there was no winner. -/
structure Left (waits : Waits) (clock : Nat) (lead earlier : List (α × Nat)) (seen : List (Seen τ)) : Prop where
  hedged : Hedged waits clock 0 lead.length (earlier.map Prod.snd) seen
  released : Released waits clock lead.length seen
  noWinner : ∀ event ∈ seen, event.winner = none

/-- What was seen of both groups: of the later one nothing, or what follows after the preferred one was left. -/
def Groups (waits : Waits) (clock : Nat) (lead rest : List (α × Nat)) (started : List Nat) (seen : List (Seen τ)) : Prop :=
  ∃ preferred fallback startedFirst startedThen, seen = preferred ++ fallback ∧ started = startedFirst ++ startedThen ∧
    Hedged waits clock 0 lead.length startedFirst preferred ∧
    (startedThen = [] ∧ fallback = [] ∨ Hedged waits clock lead.length rest.length startedThen fallback ∧
      Released waits clock lead.length preferred ∧ ∀ event ∈ preferred, event.winner = none)

/-- What holds between the events of a run. -/
def Keeps (waits : Waits) (lead rest : List (α × Nat)) (clock : Nat) (seen : List (Seen τ)) : Stage (α × Nat) τ → Prop
  | .preferred pace race fallback preferredCount deadline =>
    preferredCount = lead.length ∧ deadline = waits.preferredTimeout ∧ fallback = rest ∧
      Raced waits clock 0 lead pace race seen
  | .last pace race earlier offset =>
    offset = lead.length ∧ ∃ preferred fallback, seen = preferred ++ fallback ∧ Left waits clock lead earlier preferred ∧
      Raced waits clock lead.length rest pace race fallback
  | .returned started winner =>
    Groups waits clock lead rest (started.map Prod.snd) seen ∧ winner = seen.findSome? Seen.winner ∧
      (winner = none → Released waits clock lead.length seen ∧
        ∀ position, lead.length ≤ position → position < lead.length + rest.length → position ∈ ended seen)

variable {lead rest earlier : List (α × Nat)} {preferred fallback : List (Seen τ)} {stage : Stage (α × Nat) τ}

theorem Released.mono (h : Released waits clock size seen) (hlater : clock ≤ later) : Released waits later size seen :=
  h.imp_right hlater.trans'

theorem Released.append (h : Released waits clock size seen) (more : List (Seen τ)) :
    Released waits clock size (seen ++ more) := by
  refine h.imp_left fun hall position hlt => ?_
  rw [ended_append]
  exact List.mem_append_left _ (hall position hlt)

theorem Left.mono (h : Left waits clock lead earlier seen) (hlater : clock ≤ later) : Left waits later lead earlier seen :=
  ⟨h.hedged.mono hlater, h.released.mono hlater, h.noWinner⟩

theorem Groups.mono {started : List Nat} (h : Groups waits clock lead rest started seen) (hlater : clock ≤ later) :
    Groups waits later lead rest started seen := by
  obtain ⟨preferred, fallback, startedFirst, startedThen, hseen, hstarted, hfirst, hthen⟩ := h
  refine ⟨preferred, fallback, startedFirst, startedThen, hseen, hstarted, hfirst.mono hlater, ?_⟩
  exact hthen.imp_right fun hthen => ⟨hthen.1.mono hlater, hthen.2.1.mono hlater, hthen.2.2⟩

theorem Keeps.mono (h : Keeps waits lead rest clock seen stage) (hlater : clock ≤ later) :
    Keeps waits lead rest later seen stage := by
  cases stage with
  | preferred => exact ⟨h.1, h.2.1, h.2.2.1, h.2.2.2.mono hlater⟩
  | last =>
    obtain ⟨hoffset, preferred, fallback, hseen, hleft, hraced⟩ := h
    exact ⟨hoffset, preferred, fallback, hseen, hleft.mono hlater, hraced.mono hlater⟩
  | returned => exact ⟨h.1.mono hlater, h.2.1, fun hnone => (h.2.2 hnone).imp_left fun hreleased => hreleased.mono hlater⟩

theorem findSome?_winner (hnone : ∀ event ∈ seen, event.winner = none) : seen.findSome? Seen.winner = none :=
  List.findSome?_eq_none_iff.mpr hnone

theorem findSome?_winner_append (hnone : ∀ event ∈ seen, event.winner = none) (position : Nat) (value : τ) :
    (seen ++ [Seen.ended position (some (value, true))]).findSome? Seen.winner = some (position, value) := by
  rw [List.findSome?_append, findSome?_winner hnone]
  rfl

theorem Left.lastPolled (h : Left waits clock lead earlier preferred) {poll : Poll (α × Nat) Unit τ}
    (hpoll : Polled waits clock lead.length rest pace fallback poll) :
    Keeps waits lead rest clock (preferred ++ fallback) (lastPolled pace earlier lead.length poll) := by
  have hgroups {started : List (α × Nat)} (hstarted : Hedged waits clock lead.length rest.length (started.map Prod.snd) fallback) :
      Groups waits clock lead rest ((earlier ++ started).map Prod.snd) (preferred ++ fallback) :=
    ⟨preferred, fallback, _, _, rfl, List.map_append, h.hedged, .inr ⟨hstarted, h.released, h.noWinner⟩⟩
  cases poll with
  | pending race => exact ⟨rfl, preferred, fallback, rfl, h, hpoll⟩
  | ready started result =>
    cases result with
    | ok winner =>
      obtain ⟨hstarted, before, rfl, hbefore⟩ := hpoll
      refine ⟨hgroups hstarted, ?_, fun hnone => by cases hnone⟩
      rw [← List.append_assoc, findSome?_winner_append (noWinner_append h.noWinner hbefore)]
    | error errors =>
      obtain ⟨hstarted, hnone, hall⟩ := hpoll
      refine ⟨hgroups hstarted, ?_, fun _ => ⟨h.released.append _, fun position hle hlt => ?_⟩⟩
      · rw [findSome?_winner (noWinner_append h.noWinner hnone)]
      · rw [ended_append]
        exact List.mem_append_right _ (hall position hle hlt)

theorem Left.raceFallback (h : Left waits clock lead earlier seen) (hrest : Stands lead.length rest) :
    Keeps waits lead rest clock seen (raceFallback waits clock rest earlier lead.length) := by
  have hbegin : Polled waits clock lead.length rest (waits.pace clock) ([] : List (Seen τ)) _ := polled_begin hrest waits clock
  have hkeeps := h.lastPolled hbegin
  rwa [List.append_nil] at hkeeps

theorem keeps_preferredPolled (hrest : Stands lead.length rest) {poll : Poll (α × Nat) Unit τ}
    (hpoll : Polled waits clock 0 lead pace seen poll) : Keeps waits lead rest clock seen
      (preferredPolled waits clock pace rest lead.length waits.preferredTimeout poll) := by
  cases poll with
  | pending race => exact ⟨rfl, rfl, rfl, hpoll⟩
  | ready started result =>
    cases result with
    | ok winner =>
      obtain ⟨hstarted, before, rfl, hbefore⟩ := hpoll
      refine ⟨⟨_, [], _, [], (List.append_nil _).symm, (List.append_nil _).symm, hstarted, .inl ⟨rfl, rfl⟩⟩, ?_,
        fun hnone => by cases hnone⟩
      rw [findSome?_winner_append hbefore, Nat.zero_add]
    | error errors =>
      obtain ⟨hstarted, hnone, hall⟩ := hpoll
      have hended : ∀ position < lead.length, position ∈ ended seen := by
        intro position hlt
        exact hall position (Nat.zero_le _) (by omega)
      exact Left.raceFallback ⟨hstarted, .inl hended, hnone⟩ hrest

theorem running_of_mem {s : HdRace α τ} {position : Nat} {entry : (α × Nat) × Nat} (h : s.running position = some entry) :
    entry ∈ s.stage.inFlight ∧ entry.1.2 = position := by
  have hfound := List.find?_some h
  exact ⟨List.mem_of_find?_eq_some h, by simpa using hfound⟩

/-- An attempt that ends takes its race on. -/
theorem Keeps.completes (h : Keeps waits lead rest clock seen stage) (hrest : Stands lead.length rest) (hlater : clock ≤ later)
    {attempt : α × Nat} (hmem : (attempt, index) ∈ stage.inFlight) (result : Option (τ × Bool)) :
    Keeps waits lead rest later (seen ++ [.ended attempt.2 result])
      (stage.signal waits later (.completes index (preferredResult result))) := by
  cases stage with
  | preferred pace race more preferredCount deadline =>
    obtain ⟨rfl, rfl, rfl, hraced⟩ := h
    rw [hraced.place hmem]
    exact keeps_preferredPolled hrest (hraced.completes hlater hmem result)
  | last pace race earlier offset =>
    obtain ⟨rfl, preferred, fallback, rfl, hleft, hraced⟩ := h
    rw [hraced.place hmem, List.append_assoc]
    exact (hleft.mono hlater).lastPolled (hraced.completes hlater hmem result)
  | returned started winner => cases hmem

/-- So does a timer that is due. -/
theorem Keeps.elapses (h : Keeps waits lead rest clock seen stage) (hrest : Stands lead.length rest) (hlater : clock ≤ later)
    (hdue : stage.isDue later = true) :
    Keeps waits lead rest later (seen ++ [.hedged]) (stage.signal waits later .staggerElapses) := by
  cases stage with
  | preferred pace race more preferredCount deadline =>
    obtain ⟨rfl, rfl, rfl, hraced⟩ := h
    exact keeps_preferredPolled hrest (hraced.elapses hlater (of_decide_eq_true hdue))
  | last pace race earlier offset =>
    obtain ⟨rfl, preferred, fallback, rfl, hleft, hraced⟩ := h
    rw [List.append_assoc]
    exact (hleft.mono hlater).lastPolled (hraced.elapses hlater (of_decide_eq_true hdue))
  | returned started winner => cases hdue

/-- The end of the preferred group's window leaves that group. -/
theorem Keeps.expires (h : Keeps waits lead rest clock seen stage) (hrest : Stands lead.length rest) (hlater : clock ≤ later)
    (hover : stage.isOver later = true) : Keeps waits lead rest later seen (stage.signal waits later .deadlineElapses) := by
  cases stage with
  | preferred pace race more preferredCount deadline =>
    obtain ⟨rfl, rfl, rfl, hraced⟩ := h
    exact Left.raceFallback ⟨hraced.hedged.mono hlater, .inr (of_decide_eq_true hover), hraced.noWinner⟩ hrest
  | last => cases hover
  | returned => cases hover

/-- What a run keeps. -/
structure Watched.Keeps (waits : Waits) (lead rest : List (α × Nat)) (w : Watched α τ) : Prop where
  stage : HedgedRace.Keeps waits lead rest w.race.clock w.seen w.race.stage
  fallbacks : w.race.fallbacks = w.seen.filterMap Seen.lower

theorem Watched.Keeps.step {w : Watched α τ} (h : w.Keeps waits lead rest) (hrest : Stands lead.length rest)
    (event : Nat × Event τ) : (w.step waits event).Keeps waits lead rest := by
  have hlater : w.race.clock ≤ w.race.clock + event.1 := Nat.le_add_right _ _
  have hquiet : HedgedRace.Keeps waits lead rest (w.race.clock + event.1) (w.seen ++ []) w.race.stage := by
    rw [List.append_nil]
    exact h.stage.mono hlater
  have hfallbacks : w.race.fallbacks = (w.seen ++ []).filterMap Seen.lower := by
    rw [List.append_nil]
    exact h.fallbacks
  obtain ⟨after, event⟩ := event
  cases event with
  | completes position result =>
    cases hrunning : w.race.running position with
    | none =>
      simp only [Watched.step, HdRace.step, HdRace.sees, hrunning, Option.isSome_none, Bool.false_eq_true, if_false]
      exact ⟨hquiet, hfallbacks⟩
    | some entry =>
      obtain ⟨hmem, rfl⟩ := running_of_mem hrunning
      simp only [Watched.step, HdRace.step, HdRace.sees, hrunning, Option.isSome_some, if_true]
      refine ⟨h.stage.completes hrest hlater hmem result, ?_⟩
      rw [List.filterMap_append, h.fallbacks, lowerResult_eq]
  | staggerElapses =>
    cases hdue : w.race.stage.isDue (w.race.clock + after) with
    | false =>
      simp only [Watched.step, HdRace.step, HdRace.sees, hdue, Bool.false_eq_true, if_false]
      exact ⟨hquiet, hfallbacks⟩
    | true =>
      simp only [Watched.step, HdRace.step, HdRace.sees, hdue, if_true]
      refine ⟨h.stage.elapses hrest hlater hdue, ?_⟩
      rw [List.filterMap_append, h.fallbacks]
      exact (List.append_nil _).symm
  | deadlineElapses =>
    cases hover : w.race.stage.isOver (w.race.clock + after) with
    | false =>
      simp only [Watched.step, HdRace.step, HdRace.sees, hover, Bool.false_eq_true, if_false]
      exact ⟨hquiet, hfallbacks⟩
    | true =>
      simp only [Watched.step, HdRace.step, HdRace.sees, hover, if_true]
      refine ⟨?_, hfallbacks⟩
      rw [List.append_nil]
      exact h.stage.expires hrest hlater hover

theorem stands_zipIdx (futures : List α) : Stands 0 futures.zipIdx :=
  ⟨by rw [List.zipIdx_map_snd, List.length_zipIdx]⟩

theorem Stands.take (h : Stands first group) (count : Nat) : Stands first (group.take count) := by
  refine ⟨?_⟩
  rw [List.map_take, h.places, List.length_take]
  obtain hle | hle := Nat.le_total count group.length
  · rw [List.take_range'_of_length_ge hle, Nat.min_eq_left hle]
  · rw [List.take_range'_of_length_le hle, Nat.min_eq_right hle]

theorem Stands.drop (h : Stands first group) (count : Nat) :
    Stands (first + count) (group.drop count) := by
  refine ⟨?_⟩
  rw [List.map_drop, h.places, List.length_drop, List.drop_range', Nat.mul_one]

theorem keeps_start (waits : Waits) (futures : List α) (preferredCount : Nat) :
    (Watched.start waits futures preferredCount : Watched α τ).Keeps waits
      (futures.zipIdx.take (min preferredCount futures.length)) (futures.zipIdx.drop (min preferredCount futures.length)) := by
  refine ⟨?_, rfl⟩
  have hle : min preferredCount futures.length ≤ futures.zipIdx.length := by
    rw [List.length_zipIdx]
    exact Nat.min_le_right _ _
  have hlength : (futures.zipIdx.take (min preferredCount futures.length)).length = min preferredCount futures.length :=
    List.length_take_of_le hle
  have hall := stands_zipIdx futures
  simp only [Watched.start, raceWithHdFallback, racePreferredThenFallback, List.length_zipIdx]
  by_cases hzero : min preferredCount futures.length = 0
  · have hleft : Left waits 0 ([] : List (α × Nat)) [] ([] : List (Seen τ)) :=
      ⟨⟨rfl, by simp [ended], List.nodup_nil, fun hne => absurd rfl hne⟩, .inl (by simp), by simp⟩
    rw [if_pos hzero, hzero, List.take_zero, List.drop_zero]
    exact hleft.lastPolled (polled_begin hall waits 0)
  · have hrest := hall.drop (min preferredCount futures.length)
    rw [Nat.zero_add, ← congrArg (Stands · _) hlength] at hrest
    have hbegin : Polled waits 0 0 _ (waits.pace 0) ([] : List (Seen τ)) _ :=
      polled_begin (hall.take (min preferredCount futures.length)) waits 0
    have hkeeps := keeps_preferredPolled hrest hbegin
    rw [if_neg hzero, Nat.zero_add]
    rwa [hlength] at hkeeps

theorem Watched.Keeps.foldl (hrest : Stands lead.length rest) (events : List (Nat × Event τ)) {w : Watched α τ}
    (h : w.Keeps waits lead rest) : (events.foldl (Watched.step waits) w).Keeps waits lead rest := by
  induction events generalizing w with
  | nil => exact h
  | cons event events ih => exact ih (h.step hrest event)

theorem Hedged.lt (h : Hedged waits clock first size started seen) {position : Nat} (hended : position ∈ ended seen) :
    first ≤ position ∧ position < first + size := by
  have hmem := h.ended_started position hended
  rw [h.order, List.mem_range'_1] at hmem
  omega

/-- While a race runs, an attempt of it does. -/
theorem Raced.exists_running (h : Raced waits clock first group pace race seen) :
    ∃ entry ∈ race.inFlight, entry.1.2 ∈ race.started.map Prod.snd ∧ entry.1.2 ∉ ended seen ∧ first ≤ entry.1.2 := by
  obtain ⟨entry, hentry⟩ := List.exists_mem_of_ne_nil _ h.underWay.live
  have hplace : entry.1.2 = first + entry.2 := h.place hentry
  refine ⟨entry, hentry, ?_⟩
  rw [hplace]
  exact ⟨h.mem_started hentry, h.not_ended hentry, Nat.le_add_right _ _⟩

theorem Keeps.groups (h : Keeps waits lead rest clock seen stage) :
    Groups waits clock lead rest (stage.started.map Prod.snd) seen := by
  cases stage with
  | preferred pace race more preferredCount deadline =>
    obtain ⟨rfl, rfl, rfl, hraced⟩ := h
    exact ⟨seen, [], _, [], (List.append_nil _).symm, (List.append_nil _).symm, hraced.hedged, .inl ⟨rfl, rfl⟩⟩
  | last pace race earlier offset =>
    obtain ⟨rfl, preferred, fallback, rfl, hleft, hraced⟩ := h
    exact ⟨preferred, fallback, _, _, rfl, List.map_append, hleft.hedged, .inr ⟨hraced.hedged, hleft.released, hleft.noWinner⟩⟩
  | returned started winner => exact h.1

theorem HdRace.running_isSome {s : HdRace α τ} {entry : (α × Nat) × Nat} (h : entry ∈ s.stage.inFlight) :
    (s.running entry.1.2).isSome := by
  rw [HdRace.running, List.find?_isSome]
  exact ⟨entry, h, by simp⟩

theorem Watched.Keeps.runs {w : Watched α τ} (h : w.Keeps waits lead rest) (hresult : w.race.result = none) :
    w.seen.findSome? Seen.winner = none ∧
      ∃ position ∈ w.race.started, position ∉ ended w.seen ∧ (w.race.running position).isSome := by
  have hstage := h.stage
  rw [HdRace.started]
  cases hcase : w.race.stage with
  | preferred pace race more preferredCount deadline =>
    rw [hcase] at hstage
    obtain ⟨entry, hentry, hstarted, hended, -⟩ := hstage.2.2.2.exists_running
    refine ⟨findSome?_winner hstage.2.2.2.noWinner, entry.1.2, hstarted, hended, HdRace.running_isSome ?_⟩
    rw [hcase]
    exact hentry
  | last pace race earlier offset =>
    rw [hcase] at hstage
    obtain ⟨-, preferred, fallback, hseen, hleft, hraced⟩ := hstage
    obtain ⟨entry, hentry, hstarted, hended, hle⟩ := hraced.exists_running
    rw [hseen, findSome?_winner (noWinner_append hleft.noWinner hraced.noWinner)]
    refine ⟨rfl, entry.1.2, ?_, fun hmem => ?_, HdRace.running_isSome ?_⟩
    · rw [Stage.started, List.map_append]
      exact List.mem_append_right _ hstarted
    · rw [ended_append] at hmem
      obtain hmem | hmem := List.mem_append.mp hmem
      · have hlt := hleft.hedged.lt hmem
        omega
      · exact hended hmem
    · rw [hcase]
      exact hentry
  | returned started winner =>
    rw [HdRace.result, hcase] at hresult
    cases hresult

theorem Watched.Keeps.decides {w : Watched α τ} (h : w.Keeps waits lead rest) {result : Option (Nat × τ)}
    (hresult : w.race.result = some result) :
    result = (w.seen.findSome? Seen.winner).or ((w.seen.filterMap Seen.lower).argmin Prod.fst) ∧
      (w.seen.findSome? Seen.winner = none → Released waits w.race.clock lead.length w.seen ∧
        ∀ position, lead.length ≤ position → position < lead.length + rest.length → position ∈ ended w.seen) := by
  have hstage := h.stage
  rw [HdRace.result] at hresult
  cases hcase : w.race.stage with
  | returned started winner =>
    rw [hcase] at hresult hstage
    obtain ⟨-, hwinner, hover⟩ := hstage
    rw [← hwinner, ← h.fallbacks]
    exact ⟨(Option.some.inj hresult).symm, hover⟩
  | preferred =>
    rw [hcase] at hresult
    cases hresult
  | last =>
    rw [hcase] at hresult
    cases hresult

/-- Whatever attempts end when, and whichever timers go off once they are due: the attempts of each group start in their
order, at once after a failure; those below the preferred group only when it has failed or had its time; the first full HD
result of a running attempt wins; and without one the race goes on until all have ended, and the best-ranked lower result
that was heard is taken. -/
theorem raceWithHdFallback_observed (waits : Waits) (futures : List α) (preferredCount : Nat)
    (events : List (Nat × Event τ)) :
    Observed waits futures.length (min preferredCount futures.length)
      (events.foldl (Watched.step waits) (Watched.start waits futures preferredCount)) := by
  have hle : min preferredCount futures.length ≤ futures.zipIdx.length := by
    rw [List.length_zipIdx]
    exact Nat.min_le_right _ _
  have hlead : (futures.zipIdx.take (min preferredCount futures.length)).length = min preferredCount futures.length :=
    List.length_take_of_le hle
  have hrest : (futures.zipIdx.drop (min preferredCount futures.length)).length =
      futures.length - min preferredCount futures.length := by
    rw [List.length_drop, List.length_zipIdx]
  have hstands : Stands (futures.zipIdx.take (min preferredCount futures.length)).length
      (futures.zipIdx.drop (min preferredCount futures.length)) := by
    have hdrop := (stands_zipIdx futures).drop (min preferredCount futures.length)
    rwa [Nat.zero_add, ← congrArg (Stands · _) hlead] at hdrop
  have hstart : (Watched.start waits futures preferredCount : Watched α τ).Keeps waits _ _ :=
    keeps_start waits futures preferredCount
  have hkeeps := hstart.foldl hstands events
  refine ⟨?_, fun hnone => hkeeps.runs hnone, fun result hresult => ?_⟩
  · obtain ⟨preferred, fallback, startedFirst, startedThen, hseen, hstarted, hfirst, hthen⟩ := hkeeps.stage.groups
    rw [hlead] at hfirst hthen
    rw [hrest] at hthen
    refine ⟨preferred, fallback, startedFirst, startedThen, hseen, hstarted, hfirst, hthen.imp_right fun hthen => ?_⟩
    exact ⟨hthen.1, hthen.2.1, findSome?_winner hthen.2.2⟩
  · obtain ⟨hresult, hover⟩ := hkeeps.decides hresult
    refine ⟨hresult, fun hnone => ?_⟩
    have hall := hover hnone
    rw [hlead, hrest] at hall
    exact ⟨hall.1, fun position hfrom hlt => hall.2 position hfrom (by omega)⟩

example : (([(1, .staggerElapses), (9, .completes 0 (some ("720p", false))), (90, .completes 1 (some ("1080p", true)))] :
    List (Nat × Event String)).foldl (HdRace.step ⟨50, 20, 1000⟩) (raceWithHdFallback ⟨50, 20, 1000⟩ [(), ()] 1)).result =
      some (some (1, "1080p")) := by
  decide

end StreamArena.Resolver.HedgedRace
