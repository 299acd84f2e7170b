import StreamArena.Playback.SessionTitles

/-! Reuses of sessions that run at the same time as other writes (src/resolver.rs): a reuse
holds what it has read while it validates the address and rebuilds the response, and then
persists it again. -/
namespace StreamArena.Playback
open AsciiText KeyedTable JsonValue Runs

/-- How often the source, the health or the fail count of a row has changed. -/
abbrev Changes := Int × Text → Nat

/-- A reuse between its awaits, with the sessions it has still to consider and the changes
that its reads have seen. -/
inductive ReuseCall where
  | idle
  | considering (request : ResolveRequest) (sessions : List PlaybackSession) (seen : Changes)
  | validating (request : ResolveRequest) (session : PlaybackSession) (rest : List PlaybackSession) (seen : Changes)
  | verifying (request : ResolveRequest) (session : PlaybackSession) (rest : List PlaybackSession) (seen : Changes)
      (token : { value : Int // value < 0 })
  | building (request : ResolveRequest) (session : PlaybackSession) (seen : Changes)
  | persisting (request : ResolveRequest) (session : PlaybackSession) (seen : Changes) (prepared : PreparedSource)
      (position : ℚ)

/-- A session that a reuse has persisted again: the changes it had seen of the row that it read
and of the row that it writes, and those that it found when it wrote. -/
structure Repersist where
  seen : Nat × Nat
  found : Nat × Nat
  deriving DecidableEq

structure ReuseWorld where
  table : SessionTable
  changes : Changes
  calls : Nat → ReuseCall
  repersists : List Repersist

/-- The steps of the reuses, and the writes of all other calls. -/
inductive RepersistEvent where
  | reuse (client : Nat) (request : ResolveRequest)
  | reuseLatest (client : Nat) (request : ResolveRequest)
  | consider (client : Nat) (now : Int)
  | claim (client : Nat) (now : Int)
  | verified (client : Nat) (now : Int) (outcome : Option Bool)
  | built (client : Nat) (prepared : Option PreparedSource)
  | commit (client : Nat) (now : Int)
  | write (write : SessionWrite) (now : Int)

/-- Whether a write gives a row another source, health or fail count. -/
def changed (old new : Option PlaybackSessionRow) : Bool :=
  match old, new with
  | _, none => false
  | none, some _ => true
  | some old, some new =>
    old.sourceHash != new.sourceHash || old.selectedFile != new.selectedFile || old.filename != new.filename ||
      old.playableUrl != new.playableUrl || old.fallbackUrls != new.fallbackUrls ||
      decide (old.healthState ≠ new.healthState) || old.healthFailCount != new.healthFailCount

def ResolveRequest.rowKey (p : Platform) (request : ResolveRequest) : Int × Text :=
  (request.userId, request.ownKey p)

namespace ReuseWorld

def empty : ReuseWorld := ⟨.empty, fun _ => 0, fun _ => .idle, []⟩

section step
variable (p : Platform)

def goes (s : ReuseWorld) (client : Nat) (call : ReuseCall) : ReuseWorld :=
  { s with calls := Function.update s.calls client call }

def writes (s : ReuseWorld) (table : SessionTable) : ReuseWorld :=
  { s with
    table
    changes := fun key => s.changes key + if changed (s.table.get key) (table.get key) then 1 else 0 }

def applies (s : ReuseWorld) (write : SessionWrite) (now : Int) : ReuseWorld :=
  s.writes (write.apply p.libs.toLowercase p.render s.table now)

/-- Reads the sessions of a reuse. -/
def begins (s : ReuseWorld) (client : Nat) (request : ResolveRequest) (sessions : List PlaybackSession) : ReuseWorld :=
  match s.calls client with
  | .idle => if p.playbackSessionsEnabled then s.goes client (.considering request sessions s.changes) else s
  | _ => s

/-- A film's session of another name is invalidated, with what is read of it now. -/
def mismatches (s : ReuseWorld) (session : PlaybackSession) (now : Int) : ReuseWorld :=
  match getPlaybackSessionInner p.libs.toLowercase s.table session.userId session.sessionKey with
  | none => s
  | some existing =>
    s.applies p (.updateProgress existing session.lastPositionSeconds "invalid".toList mismatchReason) now

def considers (s : ReuseWorld) (client : Nat) (now : Int) : ReuseWorld :=
  match s.calls client with
  | .considering _ [] _ => s.goes client .idle
  | .considering request (session :: rest) seen =>
    if passesFilters p request session then
      if isValidMatch p request session then
        if needsRevalidation p session now then s.goes client (.validating request session rest seen)
        else s.goes client (.building request session seen)
      else
        (if request.metadata.mediaType = .tv then s else s.mismatches p session now).goes client
          (.considering request rest seen)
    else s.goes client (.considering request rest seen)
  | _ => s

/-- Where the validation is another call's, the session is returned without being persisted. -/
def claims (s : ReuseWorld) (client : Nat) (now : Int) : ReuseWorld :=
  match s.calls client with
  | .validating request session rest seen =>
    match (tryClaimPlaybackSessionValidation p.libs.toLowercase s.table now session).2 with
    | .claimed token => (s.applies p (.claim session) now).goes client (.verifying request session rest seen token)
    | .fresh | .leased => s.goes client .idle
    | .unavailable => s.goes client (.considering request rest seen)
  | _ => s

/-- The outcome of a verification, if it comes in time. -/
def verifies (s : ReuseWorld) (client : Nat) (now : Int) (outcome : Option Bool) : ReuseWorld :=
  match s.calls client with
  | .verifying request session rest seen token =>
    match outcome with
    | none => s.goes client .idle
    | some true =>
      let held := (s.table.get session.key).any (holdsClaim p.render session token.1 session.key)
      (s.applies p (.refresh session token) now).goes client
        (if held then .building request session seen else .considering request rest seen)
    | some false =>
      (s.applies p (.invalidate session token validationFailedReason) now).goes client
        (.considering request rest seen)
  | _ => s

def builds (s : ReuseWorld) (client : Nat) (prepared : Option PreparedSource) : ReuseWorld :=
  match s.calls client with
  | .building request session seen =>
    match prepared with
    | none => s.goes client .idle
    | some prepared =>
      let input := persistInput p request (sessionSource session) prepared
      let read := getPlaybackSessionInner p.libs.toLowercase s.table input.userId
      let position := persistedPosition (read (trim input.sessionKey))
        ((input.autoSessionKey p.libs.toLowercase).bind read)
      s.goes client (if input.isComplete then .persisting request session seen prepared position else .idle)
  | _ => s

def commits (s : ReuseWorld) (client : Nat) (now : Int) : ReuseWorld :=
  match s.calls client with
  | .persisting request session seen prepared position =>
    let key := request.rowKey p
    let s := { s with
      repersists := ⟨(seen session.key, seen key), (s.changes session.key, s.changes key)⟩ :: s.repersists }
    (s.applies p (.persist (persistInput p request (sessionSource session) prepared) position) now).goes client .idle
  | _ => s

def step (s : ReuseWorld) : RepersistEvent → ReuseWorld
  | .reuse client request =>
    if shouldSkipPlaybackSessionReuse request.filters then s
    else s.begins p client request ((findSession p s.table request).toList.filter fun session =>
      decide (session.healthState ≠ .invalid))
  | .reuseLatest client request =>
    s.begins p client request ((latestHealthyPlaybackSessions p s.table request.userId request.metadata.tmdbId).filter
      fun session => playbackSessionKeyAllowedForUser session.sessionKey request.resolverProvider request.userId)
  | .consider client now => s.considers p client now
  | .claim client now => s.claims p client now
  | .verified client now outcome => s.verifies p client now outcome
  | .built client prepared => s.builds p client prepared
  | .commit client now => s.commits p client now
  | .write write now => s.applies p write now

end step

/-- Every session that was persisted again replaced what the reuse had seen. -/
def Undiminished (s : ReuseWorld) : Prop :=
  ∀ repersist ∈ s.repersists, repersist.seen = repersist.found

/-- The rows that a reuse under way relies on: those of its sessions and the one it writes. -/
def holds (p : Platform) : ReuseCall → List (Int × Text)
  | .idle | .considering _ [] _ => []
  | .considering request (session :: rest) _ => request.rowKey p :: session.key :: rest.map PlaybackSession.key
  | .validating request session rest _ | .verifying request session rest _ _ =>
    request.rowKey p :: session.key :: rest.map PlaybackSession.key
  | .building request session _ | .persisting request session _ _ _ => [request.rowKey p, session.key]

/-- The row whose validation is still to come out, if the reuse does not rely on it otherwise. -/
def validates (p : Platform) : ReuseCall → Option (Int × Text)
  | .validating request session rest _ | .verifying request session rest _ _ =>
    if (rest.all fun other => decide (other.key ≠ session.key)) ∧ (rest.isEmpty ∨ session.key ≠ request.rowKey p) then some session.key
    else none
  | .idle | .considering _ _ _ | .building _ _ _ | .persisting _ _ _ _ _ => none

/-- A row that holds no playable session. -/
def Spent (t : SessionTable) (key : Int × Text) : Prop :=
  ∀ row, t.get key = some row → row.healthState = .invalid

/-- A step leaves the rows that the reuses under way rely on, but that it may invalidate one
whose validation is still to come out. -/
def Undisturbed (p : Platform) (s : ReuseWorld) (event : RepersistEvent) : Prop :=
  ∀ client key, key ∈ holds p ((s.step p event).calls client) →
    (s.step p event).changes key = s.changes key ∨
      validates p ((s.step p event).calls client) = some key ∧ Spent (s.step p event).table key

def seenOf : ReuseCall → Changes
  | .idle => fun _ => 0
  | .considering _ _ seen | .validating _ _ _ seen | .verifying _ _ _ seen _ | .building _ _ seen
  | .persisting _ _ seen _ _ => seen

/-- A reuse under way has seen the last change of every row that it relies on. -/
def Fits (p : Platform) (s : ReuseWorld) (call : ReuseCall) : Prop :=
  ∀ key ∈ holds p call, seenOf call key = s.changes key ∨ validates p call = some key ∧ Spent s.table key

variable {p : Platform} {s : ReuseWorld} {request : ResolveRequest} {session : PlaybackSession}
  {rest : List PlaybackSession} {seen : Changes}

attribute [local simp] step

/-- A row that holds no playable session is not made one without a change. -/
theorem spent_of_unchanged {t : SessionTable} {key : Int × Text} (h : Spent s.table key)
    (hsame : (s.writes t).changes key = s.changes key) : Spent t key := by
  intro row hrow
  have hunchanged : changed (s.table.get key) (t.get key) = false := by
    by_contra hchanged
    rw [writes] at hsame
    simp only [hchanged, if_true] at hsame
    omega
  rw [hrow] at hunchanged
  cases hold : s.table.get key with
  | none =>
    rw [hold] at hunchanged
    cases hunchanged
  | some old =>
    rw [hold] at hunchanged
    simp only [changed, Bool.or_eq_false_iff, decide_eq_false_iff_not, not_not] at hunchanged
    rw [← hunchanged.1.2]
    exact h old hold

/-- A reuse goes on with its other sessions when the row that it had validated is of no use. -/
theorem Fits.considering_rest (h : Fits p s (.validating request session rest seen)) :
    Fits p s (.considering request rest seen) := by
  cases rest with
  | nil => exact fun key hkey => by cases hkey
  | cons next rest =>
    intro key hkey
    have hmem : key ∈ holds p (.validating request session (next :: rest) seen) := by
      obtain rfl | hkey := List.mem_cons.mp hkey
      · exact List.mem_cons_self
      · exact List.mem_cons_of_mem _ (List.mem_cons_of_mem _ hkey)
    refine .inl ((h key hmem).resolve_right fun hspent => ?_)
    have hvalidates := hspent.1
    rw [validates, Option.ite_none_right_eq_some, Option.some.injEq] at hvalidates
    obtain ⟨⟨hnot, hrow⟩, rfl⟩ := hvalidates
    obtain heq | hkey := List.mem_cons.mp hkey
    · exact (hrow.resolve_left Bool.false_ne_true) heq
    · have hmem : session.key ∈ (next :: rest).map PlaybackSession.key := hkey
      obtain ⟨other, hother, heq⟩ := List.mem_map.mp hmem
      exact of_decide_eq_true (List.all_eq_true.mp hnot other hother) heq

theorem Fits.building (h : Fits p s (.validating request session rest seen)) (hspent : ¬ Spent s.table session.key) :
    Fits p s (.building request session seen) := by
  intro key hkey
  have hmem : key ∈ holds p (.validating request session rest seen) := by
    obtain rfl | hkey := List.mem_cons.mp hkey
    · exact List.mem_cons_self
    · rw [List.mem_singleton.mp hkey]
      exact List.mem_cons_of_mem _ List.mem_cons_self
  refine .inl ((h key hmem).resolve_right fun hright => hspent ?_)
  have hvalidates := hright.1
  rw [validates, Option.ite_none_right_eq_some, Option.some.injEq] at hvalidates
  exact hvalidates.2 ▸ hright.2

/-- A row that a claim is held of has a playable session. -/
theorem not_spent_of_held {token : Int}
    (h : (s.table.get session.key).any (holdsClaim p.render session token session.key) = true) :
    ¬ Spent s.table session.key := by
  intro hspent
  cases hrow : s.table.get session.key with
  | none =>
    rw [hrow] at h
    cases h
  | some row =>
    rw [hrow] at h
    simp [holdsClaim, hspent row hrow] at h

/-- What the calls are after a step: each is as before, or fits what was there before. -/
def Continues (p : Platform) (s t : ReuseWorld) : Prop :=
  ∀ client, t.calls client = s.calls client ∨ Fits p s (t.calls client)

theorem fits_idle : Fits p s .idle := fun key hkey => by cases hkey

theorem Continues.goes {t : ReuseWorld} {call : ReuseCall} (client : Nat) (hcalls : t.calls = s.calls)
    (hfits : Fits p s call) : Continues p s (t.goes client call) := by
  intro other
  by_cases he : other = client
  · subst he
    have hcall : (t.goes other call).calls other = call := Function.update_self ..
    rw [hcall]
    exact .inr hfits
  · refine .inl ?_
    rw [← hcalls]
    exact Function.update_of_ne he ..

theorem Continues.refl : Continues p s s := fun _ => .inl rfl

theorem continues_begins (client : Nat) (sessions : List PlaybackSession) :
    Continues p s (s.begins p client request sessions) := by
  rw [begins]
  split
  next =>
    split
    next =>
      refine .goes client rfl fun key hkey => .inl ?_
      rfl
    next => exact .refl
  next => exact .refl

theorem continues_considers {client : Nat} {now : Int} (h : Fits p s (s.calls client)) :
    Continues p s (s.considers p client now) := by
  rw [considers]
  split
  next => exact .goes client rfl fits_idle
  next request session rest seen hcall =>
    rw [hcall] at h
    have hleft : ∀ key ∈ holds p (.considering request (session :: rest) seen), seen key = s.changes key :=
      fun key hkey => (h key hkey).resolve_right fun hright => by cases hright.1
    have hrest : Fits p s (.considering request rest seen) := by
      cases rest with
      | nil => exact fun key hkey => by cases hkey
      | cons next rest =>
        intro key hkey
        refine .inl (hleft key ?_)
        obtain rfl | hkey := List.mem_cons.mp hkey
        · exact List.mem_cons_self
        · exact List.mem_cons_of_mem _ (List.mem_cons_of_mem _ hkey)
    split
    next =>
      split
      next =>
        split
        next => exact .goes client rfl fun key hkey => .inl (hleft key hkey)
        next =>
          refine .goes client rfl fun key hkey => .inl (hleft key ?_)
          obtain rfl | hkey := List.mem_cons.mp hkey
          · exact List.mem_cons_self
          · rw [List.mem_singleton.mp hkey]
            exact List.mem_cons_of_mem _ List.mem_cons_self
      next =>
        refine .goes client ?_ hrest
        split
        next => rfl
        next =>
          rw [mismatches]
          split <;> rfl
    next => exact .goes client rfl hrest
  next => exact .refl

theorem continues_claims {client : Nat} {now : Int} (h : Fits p s (s.calls client)) :
    Continues p s (s.claims p client now) := by
  rw [claims]
  split
  next request session rest seen hcall =>
    rw [hcall] at h
    split
    next => exact .goes client rfl h
    next => exact .goes client rfl fits_idle
    next => exact .goes client rfl fits_idle
    next => exact .goes client rfl h.considering_rest
  next => exact .refl

theorem continues_verifies {client : Nat} {now : Int} {outcome : Option Bool} (h : Fits p s (s.calls client)) :
    Continues p s (s.verifies p client now outcome) := by
  rw [verifies]
  split
  next request session rest seen token hcall =>
    rw [hcall] at h
    have hvalidating : Fits p s (.validating request session rest seen) := h
    split
    next => exact .goes client rfl fits_idle
    next =>
      dsimp only
      split
      next hheld => exact .goes client rfl (hvalidating.building (not_spent_of_held hheld))
      next => exact .goes client rfl hvalidating.considering_rest
    next => exact .goes client rfl hvalidating.considering_rest
  next => exact .refl

theorem continues_builds {client : Nat} {prepared : Option PreparedSource} (h : Fits p s (s.calls client)) :
    Continues p s (s.builds p client prepared) := by
  rw [builds]
  split
  next request session seen hcall =>
    rw [hcall] at h
    split
    next => exact .goes client rfl fits_idle
    next prepared =>
      refine .goes client rfl ?_
      split
      next => exact h
      next => exact fits_idle
  next => exact .refl

theorem continues_commits {client : Nat} {now : Int} : Continues p s (s.commits p client now) := by
  rw [commits]
  split
  next => exact .goes client rfl fits_idle
  next => exact .refl

theorem continues_step (h : ∀ client, Fits p s (s.calls client)) (event : RepersistEvent) :
    Continues p s (s.step p event) := by
  cases event with
  | reuse client request =>
    rw [step]
    split
    next => exact .refl
    next => exact continues_begins client _
  | reuseLatest client request => exact continues_begins client _
  | consider client now => exact continues_considers (h client)
  | claim client now => exact continues_claims (h client)
  | verified client now outcome => exact continues_verifies (h client)
  | built client prepared => exact continues_builds (h client)
  | commit client now => exact continues_commits
  | write write now => exact fun _ => .inl rfl

theorem changed_self (row : Option PlaybackSessionRow) : changed row row = false := by
  cases row <;> simp [changed]

/-- A state whose changes are those of the one before and those that its table shows. -/
def Counted (s t : ReuseWorld) : Prop := t.changes = (s.writes t.table).changes

theorem Counted.refl : Counted s s := by
  funext key
  simp [writes, changed_self]

theorem counted_writes (t : SessionTable) : Counted s (s.writes t) := rfl

theorem Counted.goes {t : ReuseWorld} (h : Counted s t) (client : Nat) (call : ReuseCall) :
    Counted s (t.goes client call) := h

theorem counted_begins (client : Nat) (sessions : List PlaybackSession) :
    Counted s (s.begins p client request sessions) := by
  rw [begins]
  split
  next => split <;> exact .refl
  next => exact .refl

/-- A step counts what it changes. -/
theorem counted_step (event : RepersistEvent) : Counted s (s.step p event) := by
  cases event with
  | reuse client request =>
    rw [step]
    split
    next => exact .refl
    next => exact counted_begins client _
  | reuseLatest client request => exact counted_begins client _
  | consider client now =>
    rw [step, considers]
    repeat' split
    all_goals first
      | exact .refl
      | exact Counted.refl.goes client _
      | skip
    rw [mismatches]
    split
    next => exact Counted.refl.goes client _
    next => exact (counted_writes _).goes client _
  | claim client now =>
    rw [step, claims]
    repeat' split
    all_goals first
      | exact .refl
      | exact (counted_writes _).goes client _
  | verified client now outcome =>
    rw [step, verifies]
    repeat' split
    all_goals first
      | exact .refl
      | exact (counted_writes _).goes client _
  | built client prepared =>
    rw [step, builds]
    repeat' split
    all_goals exact .refl
  | commit client now =>
    rw [step, commits]
    split
    next => exact (counted_writes _).goes client _
    next => exact .refl
  | write write now => exact counted_writes _

/-- Every reuse under way has seen what it relies on, and so had those that have ended. -/
structure Sound (p : Platform) (s : ReuseWorld) : Prop where
  calls : ∀ client, Fits p s (s.calls client)
  undiminished : s.Undiminished

theorem sound_empty : empty.Sound p where
  calls _ _ hkey := by cases hkey
  undiminished _ h := by cases h

/-- Only a commit persists a session again. -/
theorem repersists_step {event : RepersistEvent} (h : ∀ client now, event ≠ .commit client now) :
    (s.step p event).repersists = s.repersists := by
  cases event with
  | reuse client request =>
    rw [step, begins]
    repeat' split
    all_goals rfl
  | reuseLatest client request =>
    rw [step, begins]
    repeat' split
    all_goals rfl
  | consider client now =>
    rw [step, considers]
    repeat' split
    all_goals first
      | rfl
      | rw [mismatches]
        split <;> rfl
  | claim client now =>
    rw [step, claims]
    repeat' split
    all_goals rfl
  | verified client now outcome =>
    rw [step, verifies]
    repeat' split
    all_goals rfl
  | built client prepared =>
    rw [step, builds]
    repeat' split
    all_goals rfl
  | commit client now => exact absurd rfl (h client now)
  | write write now => rfl

theorem undiminished_commits {client : Nat} {now : Int} (h : s.Sound p) : (s.commits p client now).Undiminished := by
  rw [commits]
  split
  next request session seen prepared position hcall =>
    have hfits := h.calls client
    rw [hcall] at hfits
    have hleft : ∀ key ∈ holds p (.persisting request session seen prepared position), seen key = s.changes key :=
      fun key hkey => (hfits key hkey).resolve_right fun hright => by cases hright.1
    intro repersist hmem
    obtain rfl | hold := List.mem_cons.mp hmem
    · exact Prod.ext (hleft _ (List.mem_cons_of_mem _ List.mem_cons_self)) (hleft _ List.mem_cons_self)
    · exact h.undiminished repersist hold
  next => exact h.undiminished

theorem Sound.step {event : RepersistEvent} (hevent : Undisturbed p s event) (h : s.Sound p) :
    (s.step p event).Sound p where
  calls client key hkey := by
    obtain hsame | hspent := hevent client key hkey
    · have hbefore : seenOf ((s.step p event).calls client) key = s.changes key ∨
          validates p ((s.step p event).calls client) = some key ∧ Spent s.table key := by
        obtain hcall | hfits := continues_step h.calls event client
        · rw [hcall] at hkey ⊢
          exact h.calls client key hkey
        · exact hfits key hkey
      obtain hseen | ⟨hvalidates, hspent⟩ := hbefore
      · exact .inl (hseen.trans hsame.symm)
      · refine .inr ⟨hvalidates, spent_of_unchanged hspent ?_⟩
        rw [← counted_step event]
        exact hsame
    · exact .inr hspent
  undiminished := by
    by_cases hcommit : ∃ client now, event = .commit client now
    · obtain ⟨client, now, rfl⟩ := hcommit
      exact undiminished_commits h
    · intro repersist hmem
      rw [repersists_step fun client now heq => hcommit ⟨client, now, heq⟩] at hmem
      exact h.undiminished repersist hmem

end ReuseWorld

/-- A film that was resolved before. -/
def heatInput : PersistPlaybackSessionInput := persistInput plainPlatform (plainRequest filmMetadata []) heatSource heatPrepared

/-- The reuse that takes a step. -/
def RepersistEvent.client : RepersistEvent → Option Nat
  | .reuse client _ | .reuseLatest client _ | .consider client _ | .claim client _ | .verified client _ _
  | .built client _ | .commit client _ => some client
  | .write _ _ => none

theorem ReuseWorld.calls_step_of_ne {p : Platform} {s : ReuseWorld} {event : RepersistEvent} {other : Nat}
    (h : event.client ≠ some other) : (s.step p event).calls other = s.calls other := by
  have hgoes {t : ReuseWorld} {client : Nat} (call : ReuseCall) (hne : some client ≠ some other) :
      (t.goes client call).calls other = t.calls other :=
    Function.update_of_ne (fun heq => hne (congrArg some heq.symm)) ..
  cases event with
  | reuse client request | reuseLatest client request =>
    rw [step, begins]
    repeat' split
    all_goals first
      | rfl
      | exact hgoes _ h
  | consider client now =>
    rw [step, considers]
    repeat' split
    all_goals first
      | rfl
      | exact hgoes _ h
      | rw [mismatches]
        split <;> exact hgoes _ h
  | claim client now =>
    rw [step, claims]
    repeat' split
    all_goals first
      | rfl
      | exact hgoes _ h
  | verified client now outcome =>
    rw [step, verifies]
    repeat' split
    all_goals first
      | rfl
      | exact hgoes _ h
  | built client prepared =>
    rw [step, builds]
    repeat' split
    all_goals first
      | rfl
      | exact hgoes _ h
  | commit client now =>
    rw [step, commits]
    split
    next => exact hgoes _ h
    next => rfl
  | write write now => rfl

/-- A reuse that runs alone is disturbed by no step that leaves its own rows. -/
theorem ReuseWorld.undisturbed_alone {p : Platform} (run : List RepersistEvent)
    (halone : (run.all fun event => event.client.all (· == 0)) = true)
    (hown : ∀ n < run.length, ∀ key ∈ holds p (((run.take (n + 1)).foldl (step p) empty).calls 0),
      ((run.take (n + 1)).foldl (step p) empty).changes key = ((run.take n).foldl (step p) empty).changes key) :
    Each (step p) (Undisturbed p) empty run := by
  have hidle (events : List RepersistEvent) (other : Nat) (hne : other ≠ 0)
      (hevents : (events.all fun event => event.client.all (· == 0)) = true) :
      (events.foldl (step p) empty).calls other = .idle := by
    induction events using List.reverseRecOn with
    | nil => rfl
    | append_singleton events event ih =>
      rw [List.all_append, Bool.and_eq_true] at hevents
      have hclient : event.client ≠ some other := fun heq => by
        simp [heq, hne] at hevents
      rw [List.foldl_append, List.foldl_cons, List.foldl_nil, calls_step_of_ne hclient]
      exact ih hevents.1
  refine each_of_split fun before event after hrun => ?_
  have hbefore : run.take before.length = before := by rw [hrun, List.take_left]
  have hafter : run.take (before.length + 1) = before ++ [event] := by
    have hlength : before.length + 1 = (before ++ [event]).length := by simp
    rw [hrun, List.append_cons, hlength, List.take_left]
  have hstep : (before ++ [event]).foldl (step p) empty = (before.foldl (step p) empty).step p event := by
    rw [List.foldl_append, List.foldl_cons, List.foldl_nil]
  have hlen : before.length < run.length := by
    rw [hrun, List.length_append, List.length_cons]
    omega
  have howned := hown before.length hlen
  rw [hbefore, hafter, hstep] at howned
  intro client key hkey
  by_cases hclient : client = 0
  · subst hclient
    exact .inl (howned key hkey)
  · have hall : ((before ++ [event]).all fun event => event.client.all (· == 0)) = true := by
      rw [← hafter]
      exact List.all_eq_true.mpr fun event hmem => List.all_eq_true.mp halone event (List.mem_of_mem_take hmem)
    rw [← hstep, hidle _ client hclient hall] at hkey
    cases hkey

end StreamArena.Playback
