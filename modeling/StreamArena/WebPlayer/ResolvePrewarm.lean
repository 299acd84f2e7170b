import StreamArena.Library.AsciiText
import StreamArena.Library.InsertionMap
import StreamArena.Library.Runs
import StreamArena.Library.TaskPool

/-! Titles that a pointer rests on are resolved ahead (src/src-ui/lib/hover-resolve-prewarm.js): few requests at a time,
one a title, and each can be given up. Between any two of a promise chain's handlers everything else may happen. -/
namespace KeyedTable
variable {κ ρ : Type*} [DecidableEq κ] {t : Table κ ρ}

theorem sublist_delete (k : κ) : (t.delete k).rows.Sublist t.rows := List.filter_sublist

theorem length_delete_lt {k : κ} {r : ρ} (h : (k, r) ∈ t.rows) : (t.delete k).rows.length < t.rows.length := by
  refine Nat.lt_of_le_of_ne (sublist_delete k).length_le fun heq => ?_
  have hall := List.length_filter_eq_length_iff.mp heq (k, r) h
  simp at hall

theorem rows_set_of_free {k : κ} (h : t.get k = none) (r : ρ) : (t.set k r).rows = t.rows ++ [(k, r)] := by
  have hk : k ∉ t.rows.map Prod.fst := lookup_eq_none_iff.mp h
  simp only [Table.set, Table.upsert, hk, ↓reduceDIte]

theorem length_set_le (k : κ) (r : ρ) : (t.set k r).rows.length ≤ t.rows.length + 1 := by
  by_cases hk : k ∈ t.rows.map Prod.fst
  · simp only [Table.set, Table.upsert, hk, ↓reduceDIte, List.length_map]
    omega
  · simp only [Table.set, Table.upsert, hk, ↓reduceDIte, List.length_append, List.length_singleton, le_refl]

/-- Keys that are each found in a table are no more than its rows. -/
theorem length_le_of_get {keys : List κ} (hnodup : keys.Nodup) (h : ∀ k ∈ keys, t.get k ≠ none) :
    keys.length ≤ t.rows.length := by
  have hsubset : keys ⊆ t.rows.map Prod.fst := by
    intro k hk
    by_contra hnot
    exact h k hk (lookup_eq_none_iff.mpr hnot)
  simpa using (hnodup.subperm hsubset).length_le

theorem get_foldl_delete (keys : List κ) (k : κ) :
    (keys.foldl (fun t k => t.delete k) t).get k = if k ∈ keys then none else t.get k := by
  induction keys generalizing t with
  | nil => rfl
  | cons k' keys ih =>
    rw [List.foldl_cons, ih, get_delete]
    by_cases hk : k = k'
    · subst hk
      simp
    · simp [hk]

theorem sublist_foldl_delete (keys : List κ) : (keys.foldl (fun t k => t.delete k) t).rows.Sublist t.rows := by
  induction keys generalizing t with
  | nil => exact List.Sublist.refl _
  | cons k keys ih => exact ih.trans (sublist_delete k)

end KeyedTable

namespace StreamArena.WebPlayer.ResolvePrewarm
open AsciiText KeyedTable TaskPool

structure Config where
  safeMaxConcurrent : Nat
  safeMaxRemembered : Nat
  canFetch : Bool

inductive Status where
  | pending
  | ready
  deriving DecidableEq

/-- Where a request stands: its fetch has not settled, its answer has come, it has failed, or `finally` comes next. What
was served is marked here for good. -/
inductive Stage where
  | waiting
  | answered (ok : Bool)
  | failed
  | last (served : Bool)
  | done (served : Bool)
  deriving DecidableEq

structure Call where
  url : Text
  aborted : Bool
  timer : Bool
  stage : Stage

def Call.abort (call : Call) : Call := { call with aborted := true, timer := false }

def Call.expire (call : Call) : Call := if call.timer then call.abort else call

/-- A fetch settles once. -/
def Call.settle (call : Call) (outcome : Option Bool) : Call :=
  if call.stage = .waiting then { call with stage := outcome.elim .failed .answered } else call

/-- `pending` maps an address to the request that holds its place. -/
structure State where
  requests : Table Text Status := Table.empty
  pending : Table Text Nat := Table.empty
  calls : Pool Call := Pool.empty
  paused : Bool := false

def isReady (entry : Text × Status) : Bool := entry.2 = .ready

/-- Each turn forgets the oldest ready entry, so that there are no more turns than entries. -/
def forget (safeMaxRemembered : Nat) : Nat → Table Text Status → Table Text Status
  | 0, requests => requests
  | turns + 1, requests =>
    if safeMaxRemembered < requests.rows.length then
      match requests.rows.find? isReady with
      | some oldest => forget safeMaxRemembered turns (requests.delete oldest.1)
      | none => requests
    else requests

def pruneRemembered (config : Config) (requests : Table Text Status) : Table Text Status :=
  forget config.safeMaxRemembered requests.rows.length requests

namespace State

/-- A fetch that throws at once is a rejected promise. -/
def prewarm (config : Config) (s : State) (url : Text) (throws : Bool) : State :=
  if s.paused || url.isEmpty || !config.canFetch || (s.requests.get url).isSome then s
  else if config.safeMaxConcurrent ≤ s.pending.rows.length then s
  else
    { s with
      calls := s.calls.add ⟨url, false, true, if throws then .failed else .waiting⟩
      pending := s.pending.set url s.calls.next
      requests := s.requests.set url .pending }

def settles (s : State) (id : Nat) (outcome : Option Bool) : State :=
  { s with calls := s.calls.change id fun call => some (call.settle outcome) }

def timesOut (s : State) (id : Nat) : State :=
  { s with calls := s.calls.change id fun call => some call.expire }

/-- `then`, of an answer. -/
def answered (config : Config) (s : State) (id : Nat) (call : Call) (ok : Bool) : State :=
  if call.aborted then { s with calls := s.calls.put id { call with stage := .last false } }
  else if !ok then { s with calls := s.calls.put id { call with stage := .failed } }
  else
    { s with
      requests := pruneRemembered config ((s.requests.delete call.url).set call.url .ready)
      calls := s.calls.put id { call with stage := .last true } }

/-- `catch`. -/
def failed (s : State) (id : Nat) (call : Call) : State :=
  { s with
    requests := if s.pending.get call.url = some id then s.requests.delete call.url else s.requests
    calls := s.calls.put id { call with stage := .last false } }

/-- `finally`. -/
def finished (s : State) (id : Nat) (call : Call) (served : Bool) : State :=
  let calls := s.calls.put id { call with timer := false, stage := .done served }
  if s.pending.get call.url = some id then
    { s with
      calls := calls
      pending := s.pending.delete call.url
      requests := if s.requests.get call.url = some .pending then s.requests.delete call.url else s.requests }
  else { s with calls := calls }

/-- The next handler of a request's chain. -/
def continues (config : Config) (s : State) (id : Nat) : State :=
  match s.calls.get id with
  | none => s
  | some call =>
    match call.stage with
    | .waiting => s
    | .answered ok => s.answered config id call ok
    | .failed => s.failed id call
    | .last served => s.finished id call served
    | .done _ => s

def cancelAll (s : State) : State :=
  { s with
    calls := (s.pending.rows.map Prod.snd).foldl (fun calls id => calls.change id fun call => some call.abort) s.calls
    requests := (s.pending.rows.map Prod.fst).foldl (fun requests url => requests.delete url) s.requests
    pending := Table.empty }

end State

inductive Event where
  | prewarm (url : Text) (throws : Bool)
  | settles (id : Nat) (outcome : Option Bool)
  | continues (id : Nat)
  | timesOut (id : Nat)
  | cancelAll
  | pause
  | resume

def State.step (config : Config) (s : State) : Event → State
  | .prewarm url throws => s.prewarm config url throws
  | .settles id outcome => s.settles id outcome
  | .continues id => s.continues config id
  | .timesOut id => s.timesOut id
  | .cancelAll => s.cancelAll
  | .pause => { s with paused := true }.cancelAll
  | .resume => { s with paused := false }

def Stage.isDone : Stage → Bool
  | .done _ => true
  | _ => false

def Stage.isServed : Stage → Bool
  | .last served | .done served => served
  | _ => false

/-- Neither given up nor through its first two handlers. -/
def Call.isLive (call : Call) : Bool :=
  !call.aborted && match call.stage with
    | .waiting | .answered _ | .failed => true
    | .last _ | .done _ => false

/-- On the network, and wanted. -/
def Call.isFetching (call : Call) : Bool := !call.aborted && call.stage = .waiting

/-- What holds between any two handlers. -/
structure Sound (config : Config) (s : State) : Prop where
  held : ∀ url id, s.pending.get url = some id →
    ∃ call, s.calls.get id = some call ∧ call.url = url ∧ call.stage.isDone = false
  marked : ∀ url, s.requests.get url = some .pending → ∃ id, s.pending.get url = some id
  live : ∀ id call, s.calls.get id = some call → call.isLive = true →
    s.pending.get call.url = some id ∧ s.requests.get call.url = some .pending
  served : ∀ url, s.requests.get url = some .ready →
    ∃ id call, s.calls.get id = some call ∧ call.url = url ∧ call.stage.isServed = true
  slots : s.pending.rows.length ≤ config.safeMaxConcurrent
  remembered : s.requests.rows.countP isReady ≤ config.safeMaxRemembered
  quiet : s.paused = true → s.pending.rows = []

/-- What a user of the prewarmer relies on. -/
structure Orderly (config : Config) (s : State) : Prop where
  slots : s.pending.rows.length ≤ config.safeMaxConcurrent
  bounded : s.requests.rows.length ≤ config.safeMaxRemembered + config.safeMaxConcurrent
  fetching : ∀ ids : List Nat, ids.Nodup → (∀ id ∈ ids, ∃ call, s.calls.get id = some call ∧ call.isFetching = true) →
    ids.length ≤ config.safeMaxConcurrent
  oneEach : ∀ id id' call call', s.calls.get id = some call → s.calls.get id' = some call' → call.isFetching = true →
    call'.isFetching = true → call.url = call'.url → id = id'
  released : ∀ url id, s.pending.get url = some id →
    ∃ call, s.calls.get id = some call ∧ call.url = url ∧ call.stage.isDone = false
  marked : ∀ url, s.requests.get url = some .pending → (s.pending.get url).isSome
  ready : ∀ url, s.requests.get url = some .ready →
    ∃ id call, s.calls.get id = some call ∧ call.url = url ∧ call.stage.isServed = true
  quiet : s.paused = true → s.pending.rows = [] ∧ ∀ id call, s.calls.get id = some call → call.isFetching = false

variable {config : Config} {s : State} {requests : Table Text Status} {url : Text} {id : Nat} {call : Call}

/-- Of the entries only ready ones are forgotten, and too many of them never stay. -/
theorem get_forget {status : Status} (turns : Nat) (h : (forget config.safeMaxRemembered turns requests).get url = some status) :
    requests.get url = some status := by
  induction turns generalizing requests with
  | zero => exact h
  | succ turns ih =>
    rw [forget] at h
    split at h
    · split at h
      · have hget := ih h
        rw [get_delete] at hget
        split at hget
        · cases hget
        · exact hget
      · exact h
    · exact h

theorem get_forget_pending (turns : Nat) (h : requests.get url = some .pending) :
    (forget config.safeMaxRemembered turns requests).get url = some .pending := by
  induction turns generalizing requests with
  | zero => exact h
  | succ turns ih =>
    rw [forget]
    split
    · split
      · next oldest hfound =>
        refine ih ?_
        have hready : oldest.2 = .ready := by simpa [isReady] using List.find?_some hfound
        have hget : requests.get oldest.1 = some oldest.2 := requests.mem_rows_iff.mp (List.mem_of_find?_eq_some hfound)
        rw [get_delete, if_neg, h]
        rintro rfl
        rw [h, hready] at hget
        cases hget
      · exact h
    · exact h

theorem countP_forget (turns : Nat) (h : requests.rows.length ≤ turns + config.safeMaxRemembered) :
    (forget config.safeMaxRemembered turns requests).rows.countP isReady ≤ config.safeMaxRemembered := by
  induction turns generalizing requests with
  | zero => exact List.countP_le_length.trans (by simpa [forget] using h)
  | succ turns ih =>
    rw [forget]
    split
    · split
      · next oldest hfound =>
        refine ih ?_
        have hlt := length_delete_lt (List.mem_of_find?_eq_some hfound)
        omega
      · next hnone =>
        have hzero : requests.rows.countP isReady = 0 := List.countP_eq_zero.mpr fun entry hentry => by
          simpa using List.find?_eq_none.mp hnone entry hentry
        omega
    · next hle =>
      exact List.countP_le_length.trans (Nat.le_of_not_lt hle)

theorem pruneRemembered_pending :
    (pruneRemembered config requests).get url = some .pending ↔ requests.get url = some .pending :=
  ⟨get_forget _, get_forget_pending _⟩

theorem countP_pruneRemembered : (pruneRemembered config requests).rows.countP isReady ≤ config.safeMaxRemembered :=
  countP_forget _ (Nat.le_add_right _ _)

/-- What a change of the requests leaves that touches no entry: each keeps its address, none comes back to life, none that
runs is through, and what was served stays so. -/
structure Moves (calls calls' : Pool Call) : Prop where
  back : ∀ id call', calls'.get id = some call' →
    ∃ call, calls.get id = some call ∧ call'.url = call.url ∧ (call'.isLive = true → call.isLive = true)
  forth : ∀ id call, calls.get id = some call → ∃ call', calls'.get id = some call' ∧ call'.url = call.url ∧
    (call.stage.isDone = false → call'.stage.isDone = false) ∧ (call.stage.isServed = true → call'.stage.isServed = true)

theorem Moves.refl (calls : Pool Call) : Moves calls calls :=
  ⟨fun _ call h => ⟨call, h, rfl, fun h => h⟩, fun _ call h => ⟨call, h, rfl, fun h => h, fun h => h⟩⟩

theorem Moves.trans {first second third : Pool Call} (h : Moves first second) (h' : Moves second third) : Moves first third := by
  refine ⟨fun id call'' hget => ?_, fun id call hget => ?_⟩
  · obtain ⟨call', hget', hurl', hlive'⟩ := h'.back id call'' hget
    obtain ⟨call, hget, hurl, hlive⟩ := h.back id call' hget'
    exact ⟨call, hget, hurl'.trans hurl, fun h => hlive (hlive' h)⟩
  · obtain ⟨call', hget', hurl, hdone, hserved⟩ := h.forth id call hget
    obtain ⟨call'', hget'', hurl', hdone', hserved'⟩ := h'.forth id call' hget'
    exact ⟨call'', hget'', hurl'.trans hurl, fun h => hdone' (hdone h), fun h => hserved' (hserved h)⟩

/-- Of one request. -/
theorem moves_change {calls : Pool Call} {f : Call → Call}
    (hf : ∀ call, calls.get id = some call → (f call).url = call.url ∧ ((f call).isLive = true → call.isLive = true) ∧
      (call.stage.isDone = false → (f call).stage.isDone = false) ∧
      (call.stage.isServed = true → (f call).stage.isServed = true)) :
    Moves calls (calls.change id fun call => some (f call)) := by
  refine ⟨fun id' call' hget => ?_, fun id' call hget => ?_⟩
  · rw [Pool.get_change] at hget
    split at hget
    · next heq =>
      subst heq
      cases hcall : calls.get id' with
      | none =>
        rw [hcall] at hget
        cases hget
      | some call =>
        rw [hcall] at hget
        obtain rfl := Option.some.inj hget
        obtain ⟨hurl, hlive, -, -⟩ := hf call hcall
        exact ⟨call, rfl, hurl, hlive⟩
    · exact ⟨call', hget, rfl, fun h => h⟩
  · by_cases heq : id' = id
    · subst heq
      obtain ⟨hurl, -, hdone, hserved⟩ := hf call hget
      refine ⟨f call, ?_, hurl, hdone, hserved⟩
      rw [Pool.get_change, if_pos rfl, hget]
      rfl
    · refine ⟨call, ?_, rfl, fun h => h, fun h => h⟩
      rw [Pool.get_change, if_neg heq, hget]

theorem put_eq_change (calls : Pool Call) (id : Nat) (call : Call) : calls.put id call = calls.change id fun _ => some call := rfl

theorem moves_put {calls : Pool Call} {call' : Call} (hcall : calls.get id = some call) (hurl : call'.url = call.url)
    (hlive : call'.isLive = true → call.isLive = true) (hdone : call.stage.isDone = false → call'.stage.isDone = false)
    (hserved : call.stage.isServed = true → call'.stage.isServed = true) : Moves calls (calls.put id call') := by
  refine moves_change fun old hold => ?_
  rw [hcall] at hold
  obtain rfl := Option.some.inj hold
  exact ⟨hurl, hlive, hdone, hserved⟩

theorem get_put_self {calls : Pool Call} {call' : Call} (hcall : calls.get id = some call) :
    (calls.put id call').get id = some call' := by
  rw [put_eq_change, Pool.get_change, if_pos rfl, hcall]
  rfl

theorem get_put_of_ne {calls : Pool Call} {call' : Call} {id' : Nat} (hne : id' ≠ id) :
    (calls.put id call').get id' = calls.get id' := by
  rw [put_eq_change, Pool.get_change, if_neg hne]

theorem Sound.moves (h : Sound config s) {calls : Pool Call} (hmoves : Moves s.calls calls) :
    Sound config { s with calls := calls } where
  held url id hheld := by
    obtain ⟨call, hget, hurl, hdone⟩ := h.held url id hheld
    obtain ⟨call', hget', hurl', hdone', -⟩ := hmoves.forth id call hget
    exact ⟨call', hget', hurl'.trans hurl, hdone' hdone⟩
  marked := h.marked
  live id call' hget hlive := by
    obtain ⟨call, hcall, hurl, hback⟩ := hmoves.back id call' hget
    rw [hurl]
    exact h.live id call hcall (hback hlive)
  served url hready := by
    obtain ⟨id, call, hget, hurl, hserved⟩ := h.served url hready
    obtain ⟨call', hget', hurl', -, hserved'⟩ := hmoves.forth id call hget
    exact ⟨id, call', hget', hurl'.trans hurl, hserved' hserved⟩
  slots := h.slots
  remembered := h.remembered
  quiet := h.quiet

theorem moves_settle (calls : Pool Call) (id : Nat) (outcome : Option Bool) :
    Moves calls (calls.change id fun call => some (call.settle outcome)) := by
  refine moves_change fun call _ => ?_
  rw [Call.settle]
  split
  · next hwaiting => cases outcome <;> simp [Call.isLive, hwaiting, Stage.isDone, Stage.isServed]
  · exact ⟨rfl, fun h => h, fun h => h, fun h => h⟩

theorem Call.isLive_abort (call : Call) : call.abort.isLive = false := rfl

theorem moves_abort (calls : Pool Call) (id : Nat) : Moves calls (calls.change id fun call => some call.abort) :=
  moves_change fun call _ => ⟨rfl, fun hlive => absurd hlive (by simp [Call.isLive_abort]), fun h => h, fun h => h⟩

theorem moves_expire (calls : Pool Call) (id : Nat) : Moves calls (calls.change id fun call => some call.expire) := by
  refine moves_change fun call _ => ?_
  rw [Call.expire]
  split
  · exact ⟨rfl, fun hlive => absurd hlive (by simp [Call.isLive_abort]), fun h => h, fun h => h⟩
  · exact ⟨rfl, fun h => h, fun h => h, fun h => h⟩

theorem Sound.prewarm (h : Sound config s) (url : Text) (throws : Bool) : Sound config (s.prewarm config url throws) := by
  rw [State.prewarm]
  split
  · exact h
  · next hadmitted =>
    split
    · exact h
    · next hroom =>
      simp only [Bool.or_eq_true, not_or, Bool.not_eq_true, Option.isSome_eq_false_iff, Option.isNone_iff_eq_none] at hadmitted
      obtain ⟨⟨⟨hpaused, -⟩, -⟩, hfree⟩ := hadmitted
      refine ⟨fun url' id hget => ?_, fun url' hget => ?_, fun id call hget hlive => ?_, fun url' hget => ?_, ?_, ?_,
        fun hquiet => ?_⟩
      · rw [get_set] at hget
        split at hget
        · next heq =>
          obtain rfl := Option.some.inj hget
          refine ⟨_, Pool.get_add_eq_some.mpr (.inl ⟨rfl, rfl⟩), heq.symm, ?_⟩
          cases throws <;> rfl
        · obtain ⟨call, hcall, hrest⟩ := h.held url' id hget
          exact ⟨call, Pool.get_add_eq_some.mpr (.inr hcall), hrest⟩
      · rw [get_set] at hget ⊢
        split at hget
        · next heq => exact ⟨s.calls.next, by rw [if_pos heq]⟩
        · next hne =>
          obtain ⟨id, hid⟩ := h.marked url' hget
          exact ⟨id, by rw [if_neg hne, hid]⟩
      · obtain ⟨rfl, rfl⟩ | hcall := Pool.get_add_eq_some.mp hget
        · exact ⟨by rw [get_set, if_pos rfl], by rw [get_set, if_pos rfl]⟩
        · obtain ⟨hpending, hrequest⟩ := h.live id call hcall hlive
          have hne : call.url ≠ url := by
            rintro rfl
            rw [hfree] at hrequest
            cases hrequest
          rw [get_set, if_neg hne, get_set, if_neg hne]
          exact ⟨hpending, hrequest⟩
      · rw [get_set] at hget
        split at hget
        · cases hget
        · obtain ⟨id, call, hcall, hrest⟩ := h.served url' hget
          exact ⟨id, call, Pool.get_add_eq_some.mpr (.inr hcall), hrest⟩
      · have hle := length_set_le (t := s.pending) url s.calls.next
        dsimp only
        omega
      · dsimp only
        rw [rows_set_of_free hfree, List.countP_append]
        exact h.remembered
      · rw [hpaused] at hquiet
        cases hquiet

theorem Sound.answered (h : Sound config s) (hcall : s.calls.get id = some call) {ok : Bool} (hstage : call.stage = .answered ok) :
    Sound config (s.answered config id call ok) := by
  rw [State.answered]
  split
  · exact h.moves (moves_put hcall rfl (by simp [Call.isLive]) (fun _ => rfl) (by simp [hstage, Stage.isServed]))
  · next halive =>
    have hlive : call.isLive = true := by simp [Call.isLive, halive, hstage]
    split
    · exact h.moves (moves_put hcall rfl (fun _ => hlive) (fun _ => rfl) (by simp [hstage, Stage.isServed]))
    · obtain ⟨hpending, hrequest⟩ := h.live id call hcall hlive
      have hmoves : Moves s.calls (s.calls.put id { call with stage := .last true }) :=
        moves_put hcall rfl (fun _ => hlive) (fun _ => rfl) (fun _ => rfl)
      have hsound := h.moves hmoves
      have hget {url' : Text} (hne : url' ≠ call.url) :
          ((s.requests.delete call.url).set call.url .ready).get url' = s.requests.get url' := by
        rw [get_set, if_neg hne, get_delete, if_neg hne]
      refine ⟨hsound.held, fun url' hmarked => ?_, fun id' call' hcall' hlive' => ?_, fun url' hready => ?_, h.slots,
        countP_pruneRemembered, h.quiet⟩
      · rw [pruneRemembered_pending] at hmarked
        by_cases heq : url' = call.url
        · rw [heq, get_set, if_pos rfl] at hmarked
          cases hmarked
        · rw [hget heq] at hmarked
          exact h.marked url' hmarked
      · obtain ⟨hpending', hrequest'⟩ := hsound.live id' call' hcall' hlive'
        refine ⟨hpending', pruneRemembered_pending.mpr ?_⟩
        rw [hget fun heq => ?_]
        · exact hrequest'
        · rw [heq] at hpending'
          obtain rfl : id = id' := Option.some.inj (hpending.symm.trans hpending')
          rw [get_put_self hcall] at hcall'
          obtain rfl := Option.some.inj hcall'
          simp [Call.isLive] at hlive'
      · have hready := get_forget _ hready
        by_cases heq : url' = call.url
        · exact ⟨id, _, get_put_self hcall, heq.symm, rfl⟩
        · rw [hget heq] at hready
          exact hsound.served url' hready

theorem countP_delete_le (requests : Table Text Status) (url : Text) :
    (requests.delete url).rows.countP isReady ≤ requests.rows.countP isReady := (sublist_delete url).countP_le

theorem Sound.failed (h : Sound config s) (hcall : s.calls.get id = some call) (hstage : call.stage = .failed) :
    Sound config (s.failed id call) := by
  have hmoves : Moves s.calls (s.calls.put id { call with stage := .last false }) :=
    moves_put hcall rfl (by simp [Call.isLive]) (fun _ => rfl) (by simp [hstage, Stage.isServed])
  have hsound := h.moves hmoves
  rw [State.failed]
  split
  · next howns =>
    refine ⟨hsound.held, fun url' hmarked => ?_, fun id' call' hcall' hlive' => ?_, fun url' hready => ?_, h.slots,
      (countP_delete_le _ _).trans h.remembered, h.quiet⟩
    · rw [get_delete] at hmarked
      split at hmarked
      · cases hmarked
      · exact h.marked url' hmarked
    · obtain ⟨hpending', hrequest'⟩ := hsound.live id' call' hcall' hlive'
      refine ⟨hpending', ?_⟩
      rw [get_delete, if_neg fun heq => ?_]
      · exact hrequest'
      · rw [heq] at hpending'
        obtain rfl : id = id' := Option.some.inj (howns.symm.trans hpending')
        rw [get_put_self hcall] at hcall'
        obtain rfl := Option.some.inj hcall'
        simp [Call.isLive] at hlive'
    · rw [get_delete] at hready
      split at hready
      · cases hready
      · exact hsound.served url' hready
  · exact hsound

/-- Who does not hold its place any more leaves all places as they are. -/
theorem Sound.finished (h : Sound config s) {served : Bool} (hcall : s.calls.get id = some call)
    (hstage : call.stage = .last served) : Sound config (s.finished id call served) := by
  have hother {id' : Nat} {call' : Call}
      (hcall' : (s.calls.put id { call with timer := false, stage := .done served }).get id' = some call')
      (hlive : call'.isLive = true) : id' ≠ id ∧ s.calls.get id' = some call' := by
    have hne : id' ≠ id := by
      rintro rfl
      rw [get_put_self hcall] at hcall'
      obtain rfl := Option.some.inj hcall'
      simp [Call.isLive] at hlive
    rw [get_put_of_ne hne] at hcall'
    exact ⟨hne, hcall'⟩
  have hserved {url' : Text} (hready : s.requests.get url' = some .ready) : ∃ id' call',
      (s.calls.put id { call with timer := false, stage := .done served }).get id' = some call' ∧ call'.url = url' ∧
        call'.stage.isServed = true := by
    obtain ⟨id', call', hget, hurl, hserved⟩ := h.served url' hready
    by_cases heq : id' = id
    · subst heq
      rw [hcall] at hget
      obtain rfl := Option.some.inj hget
      rw [hstage] at hserved
      exact ⟨id', _, get_put_self hcall, hurl, hserved⟩
    · exact ⟨id', call', by rw [get_put_of_ne heq, hget], hurl, hserved⟩
  rw [State.finished]
  split
  · next howns =>
    refine ⟨fun url' id' hget => ?_, fun url' hmarked => ?_, fun id' call' hget hlive => ?_, fun url' hready => ?_,
      (sublist_delete _).length_le.trans h.slots, ?_, fun hpaused => ?_⟩
    · rw [get_delete] at hget
      split at hget
      · cases hget
      · next hne =>
        obtain ⟨call', hcall', hurl, hdone⟩ := h.held url' id' hget
        have hid : id' ≠ id := by
          rintro rfl
          rw [hcall] at hcall'
          obtain rfl := Option.some.inj hcall'
          exact hne hurl.symm
        exact ⟨call', by rw [get_put_of_ne hid, hcall'], hurl, hdone⟩
    · have hold : s.requests.get url' = some .pending ∧ url' ≠ call.url := by
        dsimp only at hmarked
        split at hmarked
        · rw [get_delete] at hmarked
          split at hmarked
          · cases hmarked
          · next hne => exact ⟨hmarked, hne⟩
        · next hnot => exact ⟨hmarked, fun heq => hnot (heq ▸ hmarked)⟩
      obtain ⟨id', hid'⟩ := h.marked url' hold.1
      exact ⟨id', by rw [get_delete, if_neg hold.2, hid']⟩
    · obtain ⟨hne, hcall'⟩ := hother hget hlive
      obtain ⟨hpending, hrequest⟩ := h.live id' call' hcall' hlive
      have hurl : call'.url ≠ call.url := by
        intro heq
        rw [heq, howns] at hpending
        exact hne (Option.some.inj hpending).symm
      refine ⟨by rw [get_delete, if_neg hurl, hpending], ?_⟩
      dsimp only
      split
      · rw [get_delete, if_neg hurl, hrequest]
      · exact hrequest
    · have hold : s.requests.get url' = some .ready := by
        dsimp only at hready
        split at hready
        · rw [get_delete] at hready
          split at hready
          · cases hready
          · exact hready
        · exact hready
      exact hserved hold
    · dsimp only
      split
      · exact (countP_delete_le _ _).trans h.remembered
      · exact h.remembered
    · exact List.sublist_nil.mp (h.quiet hpaused ▸ sublist_delete call.url)
  · next hlost =>
    refine ⟨fun url' id' hget => ?_, h.marked, fun id' call' hget hlive => ?_, fun url' hready => hserved hready, h.slots,
      h.remembered, h.quiet⟩
    · obtain ⟨call', hcall', hurl, hdone⟩ := h.held url' id' hget
      have hid : id' ≠ id := by
        rintro rfl
        rw [hcall] at hcall'
        obtain rfl := Option.some.inj hcall'
        exact hlost (hurl ▸ hget)
      exact ⟨call', by rw [get_put_of_ne hid, hcall'], hurl, hdone⟩
    · exact h.live id' call' (hother hget hlive).2 hlive

theorem Sound.continues (h : Sound config s) (id : Nat) : Sound config (s.continues config id) := by
  rw [State.continues]
  split
  · exact h
  · next call hcall =>
    split
    · exact h
    · next ok hstage => exact h.answered hcall hstage
    · next hstage => exact h.failed hcall hstage
    · next served hstage => exact h.finished hcall hstage
    · exact h

theorem moves_foldl_abort (ids : List Nat) (calls : Pool Call) :
    Moves calls (ids.foldl (fun calls id => calls.change id fun call => some call.abort) calls) := by
  induction ids generalizing calls with
  | nil => exact Moves.refl calls
  | cons id ids ih => exact (moves_abort calls id).trans (ih _)

/-- Every request of the list is given up. -/
theorem not_live_foldl_abort {ids : List Nat} {calls : Pool Call} (hmem : id ∈ ids)
    (hget : (ids.foldl (fun calls id => calls.change id fun call => some call.abort) calls).get id = some call) :
    call.isLive = false := by
  induction ids generalizing calls with
  | nil => cases hmem
  | cons first ids ih =>
    rw [List.foldl_cons] at hget
    obtain rfl | hmem := List.mem_cons.mp hmem
    · obtain ⟨old, hold, -, hlive⟩ := (moves_foldl_abort ids _).back id call hget
      rw [Pool.get_change, if_pos rfl] at hold
      cases hcall : calls.get id with
      | none =>
        rw [hcall] at hold
        cases hold
      | some before =>
        rw [hcall] at hold
        obtain rfl := Option.some.inj hold
        cases hcase : call.isLive with
        | false => rfl
        | true => exact absurd (hlive hcase) (by simp [Call.isLive_abort])
    · exact ih hmem hget

theorem Sound.cancelAll (h : Sound config s) : Sound config s.cancelAll := by
  have hmoves := moves_foldl_abort (s.pending.rows.map Prod.snd) s.calls
  have hsound := h.moves hmoves
  have hlost {url' : Text} {status : Status} (hget : s.cancelAll.requests.get url' = some status) :
      url' ∉ s.pending.rows.map Prod.fst ∧ s.requests.get url' = some status := by
    rw [State.cancelAll, get_foldl_delete] at hget
    split at hget
    · cases hget
    · next hnot => exact ⟨hnot, hget⟩
  refine ⟨fun url' id hget => (by cases hget), fun url' hget => ?_, fun id call hget hlive => ?_, fun url' hget => ?_,
    Nat.zero_le _, (sublist_foldl_delete _).countP_le.trans h.remembered, fun _ => rfl⟩
  · obtain ⟨hnot, hget⟩ := hlost hget
    obtain ⟨id, hid⟩ := h.marked url' hget
    exact absurd (List.mem_map_of_mem (s.pending.mem_rows_iff.mpr hid)) hnot
  · obtain ⟨hpending, -⟩ := hsound.live id call hget hlive
    have hmem : id ∈ s.pending.rows.map Prod.snd := List.mem_map_of_mem (s.pending.mem_rows_iff.mpr hpending)
    rw [not_live_foldl_abort hmem hget] at hlive
    cases hlive
  · exact hsound.served url' (hlost hget).2

theorem Sound.step (h : Sound config s) (event : Event) : Sound config (s.step config event) := by
  cases event with
  | prewarm url throws => exact h.prewarm url throws
  | settles id outcome => exact h.moves (moves_settle s.calls id outcome)
  | continues id => exact h.continues id
  | timesOut id => exact h.moves (moves_expire s.calls id)
  | cancelAll => exact h.cancelAll
  | pause =>
    have hcancelled := h.cancelAll
    exact ⟨hcancelled.held, hcancelled.marked, hcancelled.live, hcancelled.served, hcancelled.slots, hcancelled.remembered,
      fun _ => rfl⟩
  | resume => exact ⟨h.held, h.marked, h.live, h.served, h.slots, h.remembered, fun hpaused => (by cases hpaused)⟩

theorem sound_initial (config : Config) : Sound config {} :=
  ⟨fun _ _ h => (by cases h), fun _ h => (by cases h), fun _ _ h => (by cases h), fun _ h => (by cases h), Nat.zero_le _,
    Nat.zero_le _, fun _ => rfl⟩

theorem Call.isLive_of_isFetching (h : call.isFetching = true) : call.isLive = true := by
  simp only [Call.isFetching, Bool.and_eq_true, Bool.not_eq_true', decide_eq_true_eq] at h
  simp [Call.isLive, h.1, h.2]

/-- Of the entries those that are pending hold a place each. -/
theorem Sound.length_requests (h : Sound config s) :
    s.requests.rows.length ≤ config.safeMaxRemembered + s.pending.rows.length := by
  have hsplit : s.requests.rows.length =
      s.requests.rows.countP isReady + s.requests.rows.countP (fun entry => !isReady entry) := by
    simpa using List.length_eq_countP_add_countP isReady
  have hpending : s.requests.rows.countP (fun entry => !isReady entry) ≤ s.pending.rows.length := by
    rw [List.countP_eq_length_filter, ← List.length_map Prod.fst]
    refine length_le_of_get (s.requests.nodup.sublist (List.filter_sublist.map Prod.fst)) fun url hurl => ?_
    obtain ⟨⟨url, status⟩, hentry, rfl⟩ := List.mem_map.mp hurl
    obtain ⟨hrow, hnot⟩ := List.mem_filter.mp hentry
    have hstatus : status = .pending := by
      cases status with
      | pending => rfl
      | ready => simp [isReady] at hnot
    subst hstatus
    obtain ⟨id, hid⟩ := h.marked url (s.requests.mem_rows_iff.mp hrow)
    rw [hid]
    exact Option.some_ne_none id
  have hready := h.remembered
  omega

theorem Sound.orderly (h : Sound config s) : Orderly config s where
  slots := h.slots
  bounded := h.length_requests.trans (Nat.add_le_add_left h.slots _)
  fetching ids hnodup hfetching := by
    have hheld : ∀ id ∈ ids, id ∈ s.pending.rows.map Prod.snd := by
      intro id hid
      obtain ⟨call, hcall, hfetch⟩ := hfetching id hid
      obtain ⟨hpending, -⟩ := h.live id call hcall (Call.isLive_of_isFetching hfetch)
      exact List.mem_map_of_mem (s.pending.mem_rows_iff.mpr hpending)
    have hlength := (hnodup.subperm hheld).length_le
    rw [List.length_map] at hlength
    exact hlength.trans h.slots
  oneEach id id' call call' hcall hcall' hfetch hfetch' hurl := by
    obtain ⟨hpending, -⟩ := h.live id call hcall (Call.isLive_of_isFetching hfetch)
    obtain ⟨hpending', -⟩ := h.live id' call' hcall' (Call.isLive_of_isFetching hfetch')
    rw [hurl, hpending'] at hpending
    exact (Option.some.inj hpending).symm
  released := h.held
  marked url hget := by
    obtain ⟨id, hid⟩ := h.marked url hget
    rw [hid]
    rfl
  ready := h.served
  quiet hpaused := by
    refine ⟨h.quiet hpaused, fun id call hcall => ?_⟩
    cases hfetch : call.isFetching with
    | false => rfl
    | true =>
      obtain ⟨hpending, -⟩ := h.live id call hcall (Call.isLive_of_isFetching hfetch)
      rw [get_of_rows_nil (h.quiet hpaused)] at hpending
      cases hpending

end StreamArena.WebPlayer.ResolvePrewarm
