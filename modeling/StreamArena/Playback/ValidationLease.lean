import StreamArena.Library.Runs
import StreamArena.Playback.Sessions

/-! The validation lease of a playback session: one column holds a deadline
(positive), no validation (zero) or the token of a claim (negative). A claim is the
only write that makes it negative, and no two claims meet. -/
namespace StreamArena.Playback
open AsciiText KeyedTable JsonValue Runs

def sqliteBusyTimeoutMs : Nat := 5000

/-- A write committed at `now`, at most the busy timeout after its call read the clock. -/
structure SessionEvent where
  now : Nat
  waited : Nat
  waited_le : waited ≤ sqliteBusyTimeoutMs
  write : SessionWrite

/-- The clock as the call read it; a claim reads it inside its transaction. -/
def SessionEvent.reading (event : SessionEvent) : Nat :=
  match event.write with
  | .claim _ => event.now
  | _ => event.now - event.waited

/-- What decides over a row's lease, in the order of the commits. -/
inductive LeaseEntry where
  | claimed (session : PlaybackSession) (token : { value : Int // value < 0 })
  | persisted (key : Int × Text)
  | refreshed (key : Int × Text)

def LeaseEntry.key : LeaseEntry → Int × Text
  | claimed session _ => session.key
  | persisted key => key
  | refreshed key => key

def LeaseEntry.token : LeaseEntry → Option Int
  | claimed _ token => some token.1
  | _ => none

/-- The table with what happened to its leases, newest first, and the time of the
last write. -/
structure LeaseState where
  table : SessionTable
  log : List LeaseEntry := []
  clock : Nat := 0

section step
variable (toLowercase : Lowercase) (render : Value → Text)

def SessionEvent.entry (t : SessionTable) (event : SessionEvent) : Option LeaseEntry :=
  match event.write with
  | .claim session =>
    match (tryClaimPlaybackSessionValidation toLowercase t event.reading session).2 with
    | .claimed token => some (.claimed session token)
    | _ => none
  | .refresh session token =>
    if (t.get session.key).any (holdsClaim render session token.1 session.key) then
      some (.refreshed session.key)
    else none
  | .persist input _ => some (.persisted input.key)
  | _ => none

def LeaseState.step (s : LeaseState) (event : SessionEvent) : LeaseState where
  table := event.write.apply toLowercase render s.table event.reading
  log := (event.entry toLowercase render s.table).toList ++ s.log
  clock := event.now

def LeaseState.run (s : LeaseState) (events : List SessionEvent) : LeaseState :=
  events.foldl (LeaseState.step toLowercase render) s

/-- The server clock does not run backwards. -/
def ClockForward (s : LeaseState) (events : List SessionEvent) : Prop :=
  Each (LeaseState.step toLowercase render) (fun s event => s.clock ≤ event.now) s events

end step

/-- The tokens handed out for a row, newest first. -/
def tokens (log : List LeaseEntry) (key : Int × Text) : List Int :=
  (log.filter fun entry => decide (entry.key = key)).filterMap LeaseEntry.token

/-- The tokens of a row that have not run out. -/
def outstanding (log : List LeaseEntry) (key : Int × Text) (instant : Int) : List Int :=
  (tokens log key).filter fun k => decide (-k > instant)

/-- The newest claim, persist or refresh of a row. -/
def newest (log : List LeaseEntry) (key : Int × Text) : Option LeaseEntry :=
  log.find? fun entry => decide (entry.key = key)

/-- The columns a lease is about. -/
structure SameLease (row row' : PlaybackSessionRow) : Prop where
  nextValidationAt : row'.nextValidationAt = row.nextValidationAt
  playableUrl : row'.playableUrl = row.playableUrl
  sourceHash : row'.sourceHash = row.sourceHash
  selectedFile : row'.selectedFile = row.selectedFile
  metadata : row'.metadata = row.metadata

variable {toLowercase : Lowercase} {render : Value → Text} {t : SessionTable} {event : SessionEvent}
  {key : Int × Text} {s : LeaseState}

theorem identityMatches_congr {row row' : PlaybackSessionRow} (hurl : row'.playableUrl = row.playableUrl)
    (hhash : row'.sourceHash = row.sourceHash) (hfile : row'.selectedFile = row.selectedFile)
    (hmeta : row'.metadata = row.metadata) (session : PlaybackSession) :
    playbackSessionValidationIdentityMatches toLowercase session row' =
      playbackSessionValidationIdentityMatches toLowercase session row := by
  simp only [playbackSessionValidationIdentityMatches, hurl, hhash, hfile, hmeta]

/-- What one write can do to the lease of a row. -/
inductive LeaseStep (toLowercase : Lowercase) (t after : SessionTable) (event : SessionEvent)
    (entry : Option LeaseEntry) (key : Int × Text) : Prop where
  | gone (hentry : ∀ e, entry = some e → e.key ≠ key) (hafter : after.get key = none)
  | kept (row row' : PlaybackSessionRow) (hentry : ∀ e, entry = some e → e.key ≠ key)
      (hbefore : t.get key = some row) (hafter : after.get key = some row') (hsame : SameLease row row')
  | claimed (session : PlaybackSession) (token : { value : Int // value < 0 })
      (row row' : PlaybackSessionRow) (hkey : session.key = key)
      (hentry : entry = some (.claimed session token))
      (htoken : token.1 = -(event.now + playbackSessionValidationLeaseMs))
      (hbefore : t.get key = some row) (hdue : row.nextValidationAt ≠ 0)
      (hover : |row.nextValidationAt| ≤ event.now) (hafter : after.get key = some row')
      (hnext : row'.nextValidationAt = token.1)
      (hmatches : playbackSessionValidationIdentityMatches toLowercase session row' = true)
  | renewed (e : LeaseEntry) (row' : PlaybackSessionRow) (hentry : entry = some e) (hkey : e.key = key)
      (htoken : e.token = none) (hafter : after.get key = some row')
      (hnext : row'.nextValidationAt = event.reading + playbackSessionValidateIntervalMs)

theorem SameLease.refl (row : PlaybackSessionRow) : SameLease row row := ⟨rfl, rfl, rfl, rfl, rfl⟩

/-- A statement that leaves the lease columns alone, whatever rows it finds. -/
theorem leaseStep_updateWhere {entry : Option LeaseEntry} {p : Int × Text → PlaybackSessionRow → Bool}
    {f : PlaybackSessionRow → PlaybackSessionRow} (hentry : ∀ e, entry = some e → e.key ≠ key)
    (hsame : ∀ row, SameLease row (f row)) :
    LeaseStep toLowercase t (t.updateWhere p f) event entry key := by
  have hget := get_updateWhere t p f key
  cases hrow : t.get key with
  | none =>
    rw [hrow, Option.map_none] at hget
    exact .gone hentry hget
  | some row =>
    rw [hrow, Option.map_some] at hget
    refine .kept row _ hentry hrow hget ?_
    split
    · exact hsame row
    · exact .refl row

theorem leaseStep_deleteWhere {entry : Option LeaseEntry} {p : Int × Text → PlaybackSessionRow → Bool}
    (hentry : ∀ e, entry = some e → e.key ≠ key) :
    LeaseStep toLowercase t (t.deleteWhere p) event entry key := by
  have hget := get_deleteWhere t p key
  cases hafter : (t.deleteWhere p).get key with
  | none => exact .gone hentry hafter
  | some row' =>
    rw [hafter] at hget
    exact .kept row' row' hentry (Option.filter_eq_some_iff.mp hget.symm).1 hafter (.refl row')

/-- A write that leaves the rows as they are. -/
theorem leaseStep_unchanged {entry : Option LeaseEntry} (hentry : ∀ e, entry = some e → e.key ≠ key) :
    LeaseStep toLowercase t t event entry key := by
  cases hrow : t.get key with
  | none => exact .gone hentry hrow
  | some row => exact .kept row row hentry hrow hrow (.refl row)

/-- A claim either finds nothing due and writes nothing, or takes the lease of a due row. -/
theorem tryClaim_cases (toLowercase : Lowercase) (t : SessionTable) (now : Nat)
    (session : PlaybackSession) :
    (∃ answer, tryClaimPlaybackSessionValidation toLowercase t now session = (t, answer) ∧
      ∀ token, answer ≠ .claimed token) ∨
    ∃ row, t.get session.key = some row ∧
      playbackSessionValidationIdentityMatches toLowercase session row = true ∧
      row.nextValidationAt ≠ 0 ∧ |row.nextValidationAt| ≤ now ∧
      tryClaimPlaybackSessionValidation toLowercase t now session =
        (t.updateWhere (fun key _ => decide (key = session.key)) (leaseRow now),
          .claimed (claimToken now)) := by
  unfold tryClaimPlaybackSessionValidation
  cases hrow : t.get session.key with
  | none => exact .inl ⟨_, rfl, by simp⟩
  | some row =>
    dsimp only
    split
    · exact .inl ⟨_, rfl, by simp⟩
    · next hfit =>
      split
      · exact .inl ⟨_, rfl, by simp⟩
      · next hdue =>
        split
        · exact .inl ⟨_, rfl, by simp⟩
        · next hlease =>
          rw [not_or, Bool.not_eq_false] at hfit
          rw [not_or] at hdue
          refine .inr ⟨row, rfl, hfit.2, hdue.1, ?_, rfl⟩
          rw [abs_le]
          omega

theorem claimToken_eq (now : Nat) :
    (claimToken now).1 = -(now + playbackSessionValidationLeaseMs) := by
  simp only [claimToken, playbackSessionValidationLeaseMs]
  omega

theorem leaseStep_claim {session : PlaybackSession} (hwrite : event.write = .claim session) :
    LeaseStep toLowercase t (event.write.apply toLowercase render t event.reading) event
      (event.entry toLowercase render t) key := by
  have hreading : event.reading = event.now := by rw [SessionEvent.reading, hwrite]
  rw [SessionEvent.entry, hwrite, SessionWrite.apply, hreading]
  dsimp only
  rcases tryClaim_cases toLowercase t event.now session with
    ⟨answer, htry, hanswer⟩ | ⟨row, hrow, hmatches, hdue, hover, htry⟩
  · rw [htry]
    cases answer with
    | claimed token => exact absurd rfl (hanswer token)
    | fresh => exact leaseStep_unchanged (by simp)
    | leased => exact leaseStep_unchanged (by simp)
    | unavailable => exact leaseStep_unchanged (by simp)
  · rw [htry]
    have hget := get_updateWhere t (fun key _ => decide (key = session.key)) (leaseRow event.now) key
    by_cases hkey : session.key = key
    · subst hkey
      rw [hrow, Option.map_some, if_pos (decide_eq_true rfl)] at hget
      exact .claimed session (claimToken event.now) row _ rfl rfl (claimToken_eq event.now) hrow hdue
        hover hget rfl ((identityMatches_congr rfl rfl rfl rfl session).trans hmatches)
    · have hother : ∀ e, some (LeaseEntry.claimed session (claimToken event.now)) = some e →
          e.key ≠ key := by
        rintro e he
        rw [← Option.some.inj he]
        exact hkey
      rw [decide_eq_false (Ne.symm hkey)] at hget
      cases hrow' : t.get key with
      | none => exact .gone hother (hget.trans (by rw [hrow', Option.map_none]))
      | some row' =>
        exact .kept row' row' hother hrow' (hget.trans (by rw [hrow', Option.map_some]; rfl)) (.refl row')

theorem leaseStep_refresh {session : PlaybackSession} {token : { value : Int // value < 0 }}
    (hwrite : event.write = .refresh session token) :
    LeaseStep toLowercase t (event.write.apply toLowercase render t event.reading) event
      (event.entry toLowercase render t) key := by
  rw [SessionEvent.entry, hwrite, SessionWrite.apply]
  dsimp only
  have hget := get_updateWhere t (holdsClaim render session token.1) (refreshRow event.reading) key
  by_cases hkey : session.key = key
  · subst hkey
    cases hrow : t.get session.key with
    | none =>
      rw [hrow, Option.map_none] at hget
      exact .gone (by simp) hget
    | some row =>
      rw [hrow, Option.map_some] at hget
      rw [Option.any_some]
      cases hheld : holdsClaim render session token.1 session.key row with
      | true =>
        rw [hheld, if_pos rfl] at hget
        exact .renewed (.refreshed session.key) _ rfl rfl rfl hget rfl
      | false =>
        rw [hheld, if_neg (by simp)] at hget
        exact .kept row row (by simp) hrow hget (.refl row)
  · have hother : ∀ e, (if (t.get session.key).any (holdsClaim render session token.1 session.key) then
        some (LeaseEntry.refreshed session.key) else none) = some e → e.key ≠ key := by
      intro e he
      rw [Option.ite_none_right_eq_some] at he
      rw [← Option.some.inj he.2]
      exact hkey
    have hnot (row : PlaybackSessionRow) : holdsClaim render session token.1 key row = false := by
      simp [holdsClaim, Ne.symm hkey]
    cases hrow : t.get key with
    | none =>
      rw [hrow, Option.map_none] at hget
      exact .gone hother hget
    | some row =>
      rw [hrow, Option.map_some, hnot, if_neg (by simp)] at hget
      exact .kept row row hother hrow hget (.refl row)

theorem leaseStep_persist {input : PersistPlaybackSessionInput} {position : ℚ}
    (hwrite : event.write = .persist input position) :
    LeaseStep toLowercase t (event.write.apply toLowercase render t event.reading) event
      (event.entry toLowercase render t) key := by
  rw [SessionEvent.entry, hwrite, SessionWrite.apply]
  have hget := get_commitPlaybackSession toLowercase t input event.reading position key
  by_cases hkey : key = input.key
  · rw [if_pos hkey] at hget
    exact .renewed (.persisted input.key) _ rfl hkey.symm rfl hget rfl
  · have hother : ∀ e, some (LeaseEntry.persisted input.key) = some e → e.key ≠ key := by
      intro e he
      rw [← Option.some.inj he]
      exact Ne.symm hkey
    rw [if_neg hkey] at hget
    split at hget
    · exact .gone hother hget
    · cases hrow : t.get key with
      | none => exact .gone hother (hget.trans hrow)
      | some row => exact .kept row row hother hrow (hget.trans hrow) (.refl row)

theorem leaseStep (toLowercase : Lowercase) (render : Value → Text) (t : SessionTable)
    (event : SessionEvent) (key : Int × Text) :
    LeaseStep toLowercase t (event.write.apply toLowercase render t event.reading) event
      (event.entry toLowercase render t) key := by
  have hquiet : ∀ e, (none : Option LeaseEntry) = some e → e.key ≠ key := nofun
  cases hwrite : event.write with
  | updateProgress existing positionSeconds healthState lastError =>
    have hnone : event.entry toLowercase render t = none := by rw [SessionEvent.entry, hwrite]
    rw [hnone, SessionWrite.apply, updatePlaybackSessionProgress]
    exact leaseStep_updateWhere hquiet fun row => ⟨rfl, rfl, rfl, rfl, rfl⟩
  | invalidateBySourceHash userId sourceHash reason =>
    have hnone : event.entry toLowercase render t = none := by rw [SessionEvent.entry, hwrite]
    rw [hnone, SessionWrite.apply, invalidatePlaybackSessionsBySourceHash]
    exact leaseStep_updateWhere hquiet fun row => ⟨rfl, rfl, rfl, rfl, rfl⟩
  | claim session =>
    rw [← hwrite]
    exact leaseStep_claim hwrite
  | refresh session token =>
    rw [← hwrite]
    exact leaseStep_refresh hwrite
  | invalidate session token reason =>
    have hnone : event.entry toLowercase render t = none := by rw [SessionEvent.entry, hwrite]
    rw [hnone, SessionWrite.apply, invalidatePlaybackSessionValidationIfCurrent]
    exact leaseStep_updateWhere hquiet fun row => ⟨rfl, rfl, rfl, rfl, rfl⟩
  | persist input position =>
    rw [← hwrite]
    exact leaseStep_persist hwrite
  | trimTable overflow =>
    have hnone : event.entry toLowercase render t = none := by rw [SessionEvent.entry, hwrite]
    rw [hnone, SessionWrite.apply, trimPlaybackSessions]
    exact leaseStep_deleteWhere hquiet

theorem tokens_other {entry : Option LeaseEntry} (hentry : ∀ e, entry = some e → e.key ≠ key)
    (log : List LeaseEntry) : tokens (entry.toList ++ log) key = tokens log key := by
  cases entry with
  | none => rfl
  | some e =>
    have hother : e.key ≠ key := hentry e rfl
    simp [tokens, hother]

theorem newest_other {entry : Option LeaseEntry} (hentry : ∀ e, entry = some e → e.key ≠ key)
    (log : List LeaseEntry) : newest (entry.toList ++ log) key = newest log key := by
  cases entry with
  | none => rfl
  | some e =>
    have hother : e.key ≠ key := hentry e rfl
    simp [newest, hother]

theorem tokens_cons {e : LeaseEntry} (hkey : e.key = key) (log : List LeaseEntry) :
    tokens (e :: log) key = e.token.toList ++ tokens log key := by
  cases htoken : e.token <;> simp [tokens, hkey, htoken]

theorem newest_cons {e : LeaseEntry} (hkey : e.key = key) (log : List LeaseEntry) :
    newest (e :: log) key = some e := by
  simp [newest, hkey]

/-- What every run keeps of a row's lease. -/
structure LeaseInv (toLowercase : Lowercase) (key : Int × Text) (s : LeaseState) : Prop where
  issued : ∀ k ∈ tokens s.log key, -k ≤ s.clock + playbackSessionValidationLeaseMs
  bounded : ∀ row, s.table.get key = some row → row.nextValidationAt ≠ 0 →
    ∀ k ∈ tokens s.log key, -k ≤ |row.nextValidationAt|
  held : ∀ row, s.table.get key = some row → row.nextValidationAt < 0 →
    ∃ session token, newest s.log key = some (.claimed session token) ∧
      token.1 = row.nextValidationAt ∧
      playbackSessionValidationIdentityMatches toLowercase session row = true
  ordered : (tokens s.log key).Pairwise fun newer older =>
    -older + playbackSessionValidationLeaseMs ≤ -newer

theorem le_reading (event : SessionEvent) : event.now ≤ event.reading + sqliteBusyTimeoutMs := by
  have hwaited := event.waited_le
  unfold SessionEvent.reading
  split <;> omega

theorem LeaseInv.step (hinv : LeaseInv toLowercase key s) (hclock : s.clock ≤ event.now) :
    LeaseInv toLowercase key (s.step toLowercase render event) := by
  have hissued : ∀ k ∈ tokens s.log key, -k ≤ event.now + playbackSessionValidationLeaseMs := by
    intro k hk
    have hk' := hinv.issued k hk
    omega
  cases leaseStep toLowercase render s.table event key with
  | gone hentry hafter =>
    have htokens := tokens_other hentry s.log
    refine ⟨?_, ?_, ?_, ?_⟩
    · rwa [← htokens] at hissued
    · intro row hrow
      exact absurd (hafter.symm.trans hrow) nofun
    · intro row hrow
      exact absurd (hafter.symm.trans hrow) nofun
    · have hordered := hinv.ordered
      rwa [← htokens] at hordered
  | kept row row' hentry hbefore hafter hsame =>
    have htokens := tokens_other hentry s.log
    have hrow' (r : PlaybackSessionRow)
        (hr : (s.step toLowercase render event).table.get key = some r) : r = row' :=
      Option.some.inj (hr.symm.trans hafter)
    refine ⟨?_, ?_, ?_, ?_⟩
    · rwa [← htokens] at hissued
    · intro r hr hnext k hk
      rw [hrow' r hr, hsame.nextValidationAt] at hnext ⊢
      exact hinv.bounded row hbefore hnext k (htokens ▸ hk)
    · intro r hr hnext
      rw [hrow' r hr] at hnext ⊢
      rw [hsame.nextValidationAt] at hnext ⊢
      obtain ⟨session, token, hnewest, htoken, hmatches⟩ := hinv.held row hbefore hnext
      refine ⟨session, token, (newest_other hentry s.log).trans hnewest, htoken, ?_⟩
      rwa [identityMatches_congr hsame.playableUrl hsame.sourceHash hsame.selectedFile hsame.metadata]
    · have hordered := hinv.ordered
      rwa [← htokens] at hordered
  | claimed session token row row' hkey hentry htoken hbefore hdue hover hafter hnext hmatches =>
    have hlog : (s.step toLowercase render event).log = .claimed session token :: s.log := by
      rw [LeaseState.step, hentry]; rfl
    have hkey' : (LeaseEntry.claimed session token).key = key := hkey
    have htokens : tokens (s.step toLowercase render event).log key = token.1 :: tokens s.log key := by
      rw [hlog, tokens_cons hkey']; rfl
    have hrow' (r : PlaybackSessionRow)
        (hr : (s.step toLowercase render event).table.get key = some r) : r = row' :=
      Option.some.inj (hr.symm.trans hafter)
    -- an older token had run out when the deadline in its place had
    have hexpired : ∀ k ∈ tokens s.log key, -k ≤ event.now := fun k hk =>
      (hinv.bounded row hbefore hdue k hk).trans hover
    refine ⟨?_, ?_, ?_, ?_⟩
    · rw [htokens]
      intro k hk
      rcases List.mem_cons.mp hk with rfl | hk
      · rw [htoken, neg_neg]; rfl
      · exact hissued k hk
    · rw [htokens]
      intro r hr _ k hk
      rw [hrow' r hr, hnext, htoken, abs_neg]
      have hle := le_abs_self ((event.now : Int) + playbackSessionValidationLeaseMs)
      rcases List.mem_cons.mp hk with rfl | hk
      · rwa [htoken, neg_neg]
      · exact (hissued k hk).trans hle
    · intro r hr _
      rw [hrow' r hr]
      exact ⟨session, token, by rw [hlog, newest_cons hkey'], hnext.symm, hmatches⟩
    · rw [htokens, List.pairwise_cons]
      refine ⟨fun k hk => ?_, hinv.ordered⟩
      have hk' := hexpired k hk
      omega
  | renewed e row' hentry hkey htoken hafter hnext =>
    have hlog : (s.step toLowercase render event).log = e :: s.log := by
      rw [LeaseState.step, hentry]; rfl
    have htokens : tokens (s.step toLowercase render event).log key = tokens s.log key := by
      rw [hlog, tokens_cons hkey, htoken]; rfl
    have hrow' (r : PlaybackSessionRow)
        (hr : (s.step toLowercase render event).table.get key = some r) : r = row' :=
      Option.some.inj (hr.symm.trans hafter)
    have hreading := le_reading event
    simp only [sqliteBusyTimeoutMs] at hreading
    simp only [playbackSessionValidateIntervalMs] at hnext
    refine ⟨?_, ?_, ?_, ?_⟩
    · rwa [← htokens] at hissued
    · rw [htokens]
      intro r hr _ k hk
      have hk' := hissued k hk
      simp only [playbackSessionValidationLeaseMs] at hk'
      rw [hrow' r hr, hnext, abs_of_nonneg (by omega)]
      omega
    · intro r hr hneg
      rw [hrow' r hr, hnext] at hneg
      omega
    · have hordered := hinv.ordered
      rwa [← htokens] at hordered

/-- The token is the newest thing that happened to the lease, and the row is still the
one its claim saw. -/
def HoldsLease (toLowercase : Lowercase) (s : LeaseState) (key : Int × Text) (k : Int) : Prop :=
  ∃ session token row, newest s.log key = some (.claimed session token) ∧ token.1 = k ∧
    s.table.get key = some row ∧
    playbackSessionValidationIdentityMatches toLowercase session row = true

/-- A holder's write that changes a row found the row's lease under its token. -/
theorem LeaseInv.holdsLease (hinv : LeaseInv toLowercase key s) {session : PlaybackSession}
    {token : { value : Int // value < 0 }} {f : PlaybackSessionRow → PlaybackSessionRow}
    (hchange : (s.table.updateWhere (holdsClaim render session token.1) f).get key ≠ s.table.get key) :
    HoldsLease toLowercase s key token.1 := by
  rw [get_updateWhere] at hchange
  cases hrow : s.table.get key with
  | none =>
    rw [hrow] at hchange
    exact absurd rfl hchange
  | some row =>
    rw [hrow, Option.map_some] at hchange
    cases hheld : holdsClaim render session token.1 key row with
    | false =>
      rw [hheld] at hchange
      exact absurd rfl hchange
    | true =>
      have hnext : row.nextValidationAt = token.1 := by
        rw [holdsClaim, Bool.and_eq_true] at hheld
        exact of_decide_eq_true hheld.2
      obtain ⟨claimed, issued, hnewest, hissued, hmatches⟩ :=
        hinv.held row hrow (hnext ▸ token.2)
      exact ⟨claimed, issued, row, hnewest, hissued.trans hnext, hrow, hmatches⟩

theorem leaseInv_start (toLowercase : Lowercase) {start : SessionTable}
    (hstart : ∀ row, start.get key = some row → 0 ≤ row.nextValidationAt) :
    LeaseInv toLowercase key ⟨start, [], 0⟩ where
  issued := by simp [tokens]
  bounded := by simp [tokens]
  held := fun row hrow hneg => absurd hneg (not_lt.mpr (hstart row hrow))
  ordered := List.Pairwise.nil

theorem LeaseInv.run (hinv : LeaseInv toLowercase key s) {events : List SessionEvent}
    (hclock : ClockForward toLowercase render s events) :
    LeaseInv toLowercase key (s.run toLowercase render events) :=
  foldl_of_each (fun _ _ hnow hs => hs.step hnow) hinv hclock

/-- Two tokens that have not run out would have been issued within one lease. -/
theorem LeaseInv.unexpired_le_one (hinv : LeaseInv toLowercase key s) {instant : Nat}
    (hinstant : s.clock ≤ instant) :
    (outstanding s.log key instant).length ≤ 1 := by
  have hordered := hinv.ordered
  have hissued := hinv.issued
  rw [outstanding]
  cases htokens : tokens s.log key with
  | nil => simp
  | cons newest older =>
    rw [htokens] at hordered hissued
    have hnone : (older.filter fun k => decide (-k > (instant : Int))) = [] := by
      rw [List.filter_eq_nil_iff]
      intro k hk
      have hold := (List.pairwise_cons.mp hordered).1 k hk
      have hnew := hissued newest List.mem_cons_self
      simp only [decide_eq_true_eq, not_lt]
      omega
    rw [List.filter_cons, hnone]
    split <;> simp

theorem LeaseInv.tokens_nodup (hinv : LeaseInv toLowercase key s) : (tokens s.log key).Nodup :=
  hinv.ordered.imp fun hlt heq => by
    rw [heq] at hlt
    simp only [playbackSessionValidationLeaseMs] at hlt
    omega

def resolvedFilmEvents : List SessionEvent :=
  let film := (getPlaybackSessionInner toAsciiLowercase
    (commitPlaybackSession toAsciiLowercase .empty 1000 resolvedFilm 0) 7 resolvedFilm.sessionKey)
  [⟨1000, 0, by decide, .persist resolvedFilm 0⟩] ++
    (film.toList.flatMap fun film =>
      [⟨91000, 0, by decide, .claim film⟩, ⟨101000, 20, by decide, .claim film⟩])

end StreamArena.Playback
