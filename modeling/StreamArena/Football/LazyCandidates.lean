import Mathlib

/-! The sources of a match, tried in the provider's order (src/football/lazy_candidates.rs):
a wrapper is fetched only when its place is reached. -/
namespace StreamArena.Football.LazyCandidates
variable {C K T : Type*}

/-- What the caller knows of a candidate. -/
structure Provider (C K T : Type*) where
  key : C → K
  isWrapper : C → Bool
  expand : C → List C
  resolve : C → Option T

inductive Event (C : Type*) where
  | expand (candidate : C)
  | resolve (candidate : C)
  deriving DecidableEq

def Event.candidate : Event C → C
  | .expand candidate | .resolve candidate => candidate

def Event.isResolve : Event C → Bool
  | .expand _ => false
  | .resolve _ => true

/-- The answer with its counters, and the calls that were made for it. -/
structure CandidateResolution (C T : Type*) where
  value : Option T
  attempted : Nat
  expanded : Nat
  log : List (Event C)

/-- The children of a wrapper go to the front of the queue, the last of them first. -/
def pushFront (isWrapper : C → Bool) (children pending : List C) : List C :=
  children.reverse.foldl (fun pending child => if !isWrapper child then child :: pending else pending) pending

theorem pushFront_eq (isWrapper : C → Bool) (children pending : List C) :
    pushFront isWrapper children pending = children.filter (fun child => !isWrapper child) ++ pending := by
  rw [pushFront, List.foldl_reverse]
  induction children with
  | nil => rfl
  | cons child children ih =>
    rw [List.foldr_cons, ih, List.filter_cons]
    split <;> rfl

namespace Provider
variable (f : Provider C K T)

def wrappers (pending : List C) : Nat := pending.countP f.isWrapper

theorem wrappers_pushFront (children pending : List C) :
    f.wrappers (pushFront f.isWrapper children pending) = f.wrappers pending := by
  rw [wrappers, pushFront_eq, List.countP_append, List.countP_filter]
  simp [wrappers]

section search
variable [DecidableEq K]

/-- The loop ends: a wrapper gives its place to direct candidates only. -/
def loop (limit : Nat) (pending : List C) (seen : List K) (result : CandidateResolution C T) : CandidateResolution C T :=
  if result.attempted < limit then
    match pending with
    | [] => result
    | candidate :: pending =>
      if f.key candidate ∈ seen then loop limit pending seen result
      else
        let seen := f.key candidate :: seen
        if f.isWrapper candidate then
          loop limit (pushFront f.isWrapper (f.expand candidate) pending) seen
            { result with expanded := result.expanded + 1, log := result.log ++ [.expand candidate] }
        else
          let result := { result with attempted := result.attempted + 1, log := result.log ++ [.resolve candidate] }
          match f.resolve candidate with
          | some value => { result with value := some value }
          | none => loop limit pending seen result
  else result
termination_by (f.wrappers pending, pending.length)
decreasing_by
  · by_cases hwrapper : f.isWrapper candidate = true
    · have hless : f.wrappers pending < f.wrappers (candidate :: pending) := by
        rw [wrappers, wrappers, List.countP_cons_of_pos hwrapper]
        omega
      exact Prod.Lex.left _ _ hless
    · have hsame : f.wrappers pending = f.wrappers (candidate :: pending) := by
        rw [wrappers, wrappers, List.countP_cons_of_neg hwrapper]
      rw [hsame]
      exact Prod.Lex.right _ (Nat.lt_succ_self _)
  · next hwrapper =>
    have hless : f.wrappers (pushFront f.isWrapper (f.expand candidate) pending) < f.wrappers (candidate :: pending) := by
      rw [wrappers_pushFront, wrappers, wrappers, List.countP_cons_of_pos hwrapper]
      omega
    exact Prod.Lex.left _ _ hless
  · next hdirect =>
    have hsame : f.wrappers pending = f.wrappers (candidate :: pending) := by
      rw [wrappers, wrappers, List.countP_cons_of_neg hdirect]
    rw [hsame]
    exact Prod.Lex.right _ (Nat.lt_succ_self _)

def resolveLazyCandidates (candidates : List C) (limit : Nat) : CandidateResolution C T :=
  f.loop limit candidates [] ⟨none, 0, 0, []⟩

/-! The list that would be searched if every wrapper were fetched first. -/

/-- The candidates with a key that is not seen yet, each key's first. -/
def distinct (seen : List K) : List C → List C
  | [] => []
  | candidate :: rest =>
    if f.key candidate ∈ seen then distinct seen rest
    else candidate :: distinct (f.key candidate :: seen) rest

def directChildren (candidate : C) : List C := (f.expand candidate).filter fun child => !f.isWrapper child

def seenAfter (seen : List K) (candidates : List C) : List K := (candidates.map f.key).reverse ++ seen

/-- Every unseen wrapper stands for its direct children, and later duplicates are dropped. -/
def eager (seen : List K) : List C → List C
  | [] => []
  | candidate :: rest =>
    if f.key candidate ∈ seen then eager seen rest
    else
      let seen := f.key candidate :: seen
      if f.isWrapper candidate then
        let children := f.distinct seen (f.directChildren candidate)
        children ++ eager (f.seenAfter seen children) rest
      else candidate :: eager seen rest

/-- The same list with the calls that make it. -/
def schedule (seen : List K) : List C → List (Event C)
  | [] => []
  | candidate :: rest =>
    if f.key candidate ∈ seen then schedule seen rest
    else
      let seen := f.key candidate :: seen
      if f.isWrapper candidate then
        let children := f.distinct seen (f.directChildren candidate)
        .expand candidate :: (children.map .resolve ++ schedule (f.seenAfter seen children) rest)
      else .resolve candidate :: schedule seen rest

end search

/-- The calls up to the first that resolves, and to the limit of attempts. -/
def upTo : Nat → List (Event C) → List (Event C)
  | 0, _ | _ + 1, [] => []
  | n + 1, .expand candidate :: events => .expand candidate :: upTo (n + 1) events
  | n + 1, .resolve candidate :: events =>
    .resolve candidate :: if (f.resolve candidate).isSome then [] else upTo n events

def directs (events : List (Event C)) : List C :=
  events.filterMap fun event => match event with
    | .expand _ => none
    | .resolve candidate => some candidate

variable {f}

theorem directs_map_resolve (candidates : List C) : directs (candidates.map .resolve) = candidates := by
  induction candidates with
  | nil => rfl
  | cons candidate candidates ih => simp [directs]

theorem directs_append (events more : List (Event C)) : directs (events ++ more) = directs events ++ directs more :=
  List.filterMap_append

section
attribute [local simp] upTo

theorem upTo_nil (n : Nat) : f.upTo n [] = [] := by
  cases n <;> rfl

theorem upTo_zero (events : List (Event C)) : f.upTo 0 events = [] := by
  cases events <;> rfl

/-- What the loop answers when these are its calls. -/
def answer (f : Provider C K T) (result : CandidateResolution C T) (events : List (Event C)) : CandidateResolution C T where
  value := (directs events).findSome? f.resolve
  attempted := result.attempted + events.countP Event.isResolve
  expanded := result.expanded + events.countP fun event => !event.isResolve
  log := result.log ++ events

theorem answer_nil {result : CandidateResolution C T} (hvalue : result.value = none) : f.answer result [] = result := by
  obtain ⟨value, attempted, expanded, log⟩ := result
  obtain rfl : value = none := hvalue
  simp [answer, directs]

theorem answer_expand (result : CandidateResolution C T) (candidate : C) (events : List (Event C)) :
    f.answer { result with expanded := result.expanded + 1, log := result.log ++ [.expand candidate] } events =
      f.answer result (.expand candidate :: events) := by
  simp [answer, directs, Event.isResolve]
  omega

theorem answer_resolve (result : CandidateResolution C T) {candidate : C} (h : f.resolve candidate = none) (events : List (Event C)) :
    f.answer { result with attempted := result.attempted + 1, log := result.log ++ [.resolve candidate] } events =
      f.answer result (.resolve candidate :: events) := by
  simp [answer, directs, Event.isResolve, h, List.countP_cons]
  omega

theorem upTo_prefix (n : Nat) (events : List (Event C)) : f.upTo n events <+: events := by
  induction events generalizing n with
  | nil =>
    rw [upTo_nil n]
  | cons event events ih =>
    cases n with
    | zero => exact List.nil_prefix
    | succ n =>
      cases event with
      | expand candidate => exact List.cons_prefix_cons.mpr ⟨rfl, ih (n + 1)⟩
      | resolve candidate =>
        rw [upTo]
        split
        · exact List.cons_prefix_cons.mpr ⟨rfl, List.nil_prefix⟩
        · exact List.cons_prefix_cons.mpr ⟨rfl, ih n⟩

/-- What the calls find is the first of so many direct candidates that resolves. -/
theorem findSome_upTo (n : Nat) (events : List (Event C)) :
    (directs (f.upTo n events)).findSome? f.resolve = ((directs events).take n).findSome? f.resolve := by
  induction events generalizing n with
  | nil => simp [upTo_nil, directs]
  | cons event events ih =>
    cases n with
    | zero => simp [directs]
    | succ n =>
      cases event with
      | expand candidate => exact ih (n + 1)
      | resolve candidate =>
        rw [upTo]
        cases hresolve : f.resolve candidate with
        | some value => simp [directs, hresolve]
        | none =>
          have hrest := ih n
          simp only [directs] at hrest
          simpa [directs, hresolve] using hrest

/-- Nothing is called after a candidate that resolves. -/
theorem last_of_upTo {n : Nat} {events before after : List (Event C)} {candidate : C} {value : T}
    (h : f.upTo n events = before ++ .resolve candidate :: after) (hresolve : f.resolve candidate = some value) :
    after = [] := by
  induction events generalizing n before with
  | nil =>
    rw [upTo_nil] at h
    simp at h
  | cons event events ih =>
    cases n with
    | zero => simp [upTo] at h
    | succ n =>
      cases event with
      | expand other =>
        rw [upTo] at h
        cases before with
        | nil => cases h
        | cons first before =>
          rw [List.cons_append, List.cons.injEq] at h
          exact ih h.2
      | resolve other =>
        rw [upTo] at h
        cases before with
        | nil =>
          rw [List.nil_append, List.cons.injEq, Event.resolve.injEq] at h
          rw [h.1, hresolve] at h
          exact h.2.symm
        | cons first before =>
          rw [List.cons_append, List.cons.injEq] at h
          split at h
          · simp at h
          · exact ih h.2

theorem attempts_upTo (n : Nat) (events : List (Event C)) : (f.upTo n events).countP Event.isResolve ≤ n := by
  induction events generalizing n with
  | nil => simp [upTo_nil]
  | cons event events ih =>
    cases n with
    | zero => simp
    | succ n =>
      cases event with
      | expand candidate => simpa [upTo, Event.isResolve] using ih (n + 1)
      | resolve candidate =>
        rw [upTo]
        split
        · simp [Event.isResolve]
        · simpa [Event.isResolve, List.countP_cons] using ih n

end

section search
variable [DecidableEq K]
attribute [local simp] distinct eager schedule

theorem directs_schedule (seen : List K) (candidates : List C) :
    directs (f.schedule seen candidates) = f.eager seen candidates := by
  induction candidates generalizing seen with
  | nil => rfl
  | cons candidate rest ih =>
    rw [schedule, eager]
    split
    · exact ih seen
    · dsimp only
      split
      · rw [← ih, ← directs_map_resolve (f.distinct _ _), ← directs_append, directs_map_resolve]
        rfl
      · rw [← ih]
        rfl

/-- In front of the queue, direct candidates are scheduled each with its key's first. -/
theorem schedule_directs {front : List C} (hfront : ∀ candidate ∈ front, f.isWrapper candidate = false) (seen : List K)
    (rest : List C) : f.schedule seen (front ++ rest) =
      (f.distinct seen front).map .resolve ++ f.schedule (f.seenAfter seen (f.distinct seen front)) rest := by
  induction front generalizing seen with
  | nil => rfl
  | cons candidate front ih =>
    have hrest := fun candidate hmem => hfront candidate (List.mem_cons_of_mem _ hmem)
    rw [List.cons_append, schedule, distinct]
    split
    · exact ih hrest seen
    · dsimp only
      rw [hfront candidate List.mem_cons_self, if_neg Bool.false_ne_true, ih hrest]
      simp [seenAfter]

theorem schedule_wrapper {candidate : C} {seen : List K} (hkey : f.key candidate ∉ seen) (hwrapper : f.isWrapper candidate = true)
    (rest : List C) : f.schedule seen (candidate :: rest) =
      .expand candidate :: f.schedule (f.key candidate :: seen) (pushFront f.isWrapper (f.expand candidate) rest) := by
  have hdirect : ∀ child ∈ f.directChildren candidate, f.isWrapper child = false := by
    intro child hmem
    simpa using (List.mem_filter.mp hmem).2
  rw [schedule, if_neg hkey]
  dsimp only
  rw [if_pos hwrapper, pushFront_eq, ← directChildren, schedule_directs hdirect]

/-- The loop makes the scheduled calls up to the first that resolves. -/
theorem loop_eq (limit : Nat) (pending : List C) (seen : List K) (result : CandidateResolution C T)
    (hvalue : result.value = none) :
    f.loop limit pending seen result =
      f.answer result (f.upTo (limit - result.attempted) (f.schedule seen pending)) := by
  fun_induction loop f limit pending seen result with
  | case1 seen result hlimit =>
    rw [schedule, upTo_nil, answer_nil hvalue]
  | case2 seen result hlimit candidate pending hseen ih =>
    rw [ih hvalue, schedule, if_pos hseen]
  | case3 seen result hlimit candidate pending hkey seen' hwrapper ih =>
    obtain ⟨n, hn⟩ : ∃ n, limit - result.attempted = n + 1 := Nat.exists_eq_succ_of_ne_zero (by omega)
    rw [ih hvalue, answer_expand, schedule_wrapper hkey hwrapper, hn, upTo]
  | case4 seen result hlimit candidate pending hkey hdirect result' value hresolve =>
    obtain ⟨n, hn⟩ : ∃ n, limit - result.attempted = n + 1 := Nat.exists_eq_succ_of_ne_zero (by omega)
    rw [schedule, if_neg hkey, hn]
    dsimp only
    rw [if_neg hdirect, upTo, hresolve]
    simp [answer, directs, Event.isResolve, hresolve, result']
  | case5 seen result hlimit candidate pending hkey seen' hdirect result' hresolve ih =>
    obtain ⟨n, hn⟩ : ∃ n, limit - result.attempted = n + 1 := Nat.exists_eq_succ_of_ne_zero (by omega)
    have hless : limit - (result.attempted + 1) = n := by omega
    rw [ih hvalue, answer_resolve result hresolve, schedule, if_neg hkey, hn, hless]
    dsimp only
    rw [if_neg hdirect, upTo, hresolve]
    rfl
  | case6 pending seen result hlimit =>
    have hzero : limit - result.attempted = 0 := by omega
    rw [hzero, upTo_zero, answer_nil hvalue]

theorem distinct_fresh (seen : List K) (candidates : List C) :
    ((f.distinct seen candidates).map f.key).Nodup ∧ ∀ candidate ∈ f.distinct seen candidates, f.key candidate ∉ seen := by
  induction candidates generalizing seen with
  | nil => exact ⟨List.nodup_nil, fun _ h => absurd h List.not_mem_nil⟩
  | cons candidate rest ih =>
    rw [distinct]
    split
    · exact ih seen
    · next hkey =>
      obtain ⟨hnodup, hfresh⟩ := ih (f.key candidate :: seen)
      refine ⟨List.nodup_cons.mpr ⟨fun hmem => ?_, hnodup⟩, fun other hother => ?_⟩
      · obtain ⟨other, hother, hsame⟩ := List.mem_map.mp hmem
        exact hfresh other hother (hsame ▸ List.mem_cons_self)
      · cases hother with
        | head => exact hkey
        | tail _ hother => exact fun hseen => hfresh other hother (List.mem_cons_of_mem _ hseen)

/-- No key is called twice. -/
theorem schedule_fresh (seen : List K) (candidates : List C) :
    ((f.schedule seen candidates).map fun event => f.key event.candidate).Nodup ∧
      ∀ event ∈ f.schedule seen candidates, f.key event.candidate ∉ seen := by
  induction candidates generalizing seen with
  | nil => exact ⟨List.nodup_nil, fun _ h => absurd h List.not_mem_nil⟩
  | cons candidate rest ih =>
    rw [schedule]
    split
    · exact ih seen
    · next hkey =>
      dsimp only
      split
      · obtain ⟨hchildren, hnew⟩ := distinct_fresh (f.key candidate :: seen) (f.directChildren candidate)
        obtain ⟨hnodup, hfresh⟩ := ih (f.seenAfter (f.key candidate :: seen)
          (f.distinct (f.key candidate :: seen) (f.directChildren candidate)))
        have hkeys (child : C) (hchild : child ∈ f.distinct (f.key candidate :: seen) (f.directChildren candidate)) :
            f.key child ∈ f.seenAfter (f.key candidate :: seen)
              (f.distinct (f.key candidate :: seen) (f.directChildren candidate)) :=
          List.mem_append_left _ (List.mem_reverse.mpr (List.mem_map_of_mem hchild))
        have hbefore (event : Event C) (hevent : event ∈
            (f.distinct (f.key candidate :: seen) (f.directChildren candidate)).map Event.resolve ++
              f.schedule (f.seenAfter (f.key candidate :: seen)
                (f.distinct (f.key candidate :: seen) (f.directChildren candidate))) rest) :
            f.key event.candidate ∉ f.key candidate :: seen := by
          rcases List.mem_append.mp hevent with hchild | hrest
          · obtain ⟨child, hin, rfl⟩ := List.mem_map.mp hchild
            exact hnew child hin
          · exact fun hseen => hfresh event hrest (List.mem_append_right _ hseen)
        refine ⟨List.nodup_cons.mpr ⟨fun hmem => ?_, ?_⟩, fun event hevent => ?_⟩
        · obtain ⟨event, hevent, hsame⟩ := List.mem_map.mp hmem
          exact hbefore event hevent (hsame ▸ List.mem_cons_self)
        · rw [List.map_append, List.map_map, List.nodup_append]
          refine ⟨hchildren, hnodup, ?_⟩
          rintro key hchild key' hrest rfl
          obtain ⟨child, hin, rfl⟩ := List.mem_map.mp hchild
          obtain ⟨event, hevent, hsame⟩ := List.mem_map.mp hrest
          exact hfresh event hevent (hsame ▸ hkeys child hin)
        · cases hevent with
          | head => exact hkey
          | tail _ hevent => exact fun hseen => hbefore event hevent (List.mem_cons_of_mem _ hseen)
      · obtain ⟨hnodup, hfresh⟩ := ih (f.key candidate :: seen)
        refine ⟨List.nodup_cons.mpr ⟨fun hmem => ?_, hnodup⟩, fun event hevent => ?_⟩
        · obtain ⟨event, hevent, hsame⟩ := List.mem_map.mp hmem
          exact hfresh event hevent (hsame ▸ List.mem_cons_self)
        · cases hevent with
          | head => exact hkey
          | tail _ hevent => exact fun hseen => hfresh event hevent (List.mem_cons_of_mem _ hseen)

variable (f) in
/-- A search that finds what the eager one finds, calls no key twice, and calls nothing that the eager order has
after the candidate it answers with. -/
structure FindsAsEager (candidates : List C) (limit : Nat) (result : CandidateResolution C T) : Prop where
  value : result.value = ((f.eager [] candidates).take limit).findSome? f.resolve
  keys : (result.log.map fun event => f.key event.candidate).Nodup
  order : result.log <+: f.schedule [] candidates
  last : ∀ before candidate after value, result.log = before ++ .resolve candidate :: after →
    f.resolve candidate = some value → after = []
  attempted : result.attempted = result.log.countP Event.isResolve
  bounded : result.attempted ≤ limit
  expanded : result.expanded = result.log.countP fun event => !event.isResolve

variable (f) in
theorem resolveLazyCandidates_eager (candidates : List C) (limit : Nat) :
    f.FindsAsEager candidates limit (f.resolveLazyCandidates candidates limit) := by
  have hloop := f.loop_eq limit candidates [] ⟨none, 0, 0, []⟩ rfl
  have hfront := f.upTo_prefix limit (f.schedule [] candidates)
  have hresult : f.resolveLazyCandidates candidates limit = f.answer ⟨none, 0, 0, []⟩ (f.upTo limit (f.schedule [] candidates)) := hloop
  rw [hresult]
  refine ⟨?_, ?_, hfront, fun before candidate after value => last_of_upTo, ?_, ?_, ?_⟩
  · rw [← directs_schedule, ← findSome_upTo]
    rfl
  · exact (schedule_fresh [] candidates).1.sublist (hfront.sublist.map _)
  · simp [answer]
  · simpa [answer] using attempts_upTo limit (f.schedule [] candidates)
  · simp [answer]

end search

end Provider

end StreamArena.Football.LazyCandidates
