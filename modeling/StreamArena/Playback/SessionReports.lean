import StreamArena.Library.Calls
import StreamArena.Playback.Sessions

/-! Reports on playback sessions that run at the same time: a progress report and a
persist read the rows in one statement and write them in a later one. -/
namespace StreamArena.Playback
open AsciiText KeyedTable JsonValue Calls Runs

structure ProgressReport where
  userId : Int
  sessionKey : Text
  positionSeconds : ℚ
  healthState : Text
  lastError : Text

inductive SessionRequest where
  | updateProgress (report : ProgressReport)
  | invalidateBySourceHash (userId : Int) (sourceHash reason : Text)
  | persist (input : PersistPlaybackSessionInput)

/-- A call between two of its statements, with what it has read. -/
inductive SessionCall where
  | reportReceived (report : ProgressReport)
  | reportRead (report : ProgressReport) (existing : PlaybackSession)
  | sourceReported (userId : Int) (sourceHash reason : Text)
  | persistReceived (input : PersistPlaybackSessionInput)
  | persistReadSession (input : PersistPlaybackSessionInput) (existing : Option PlaybackSession)
  | persistReadAuto (input : PersistPlaybackSessionInput)
      (existing autoSession : Option PlaybackSession)
  | persistCommitted
  | persistCounted (overflow : Nat)

/-- What a statement does to a row's count of invalid reports. -/
inductive ReportEntry where
  | invalid (key : Int × Text)
  | reset (key : Int × Text)
  deriving DecidableEq

/-- The invalid reports on a row since it was last healthy or persisted, newest first. -/
def invalidReports (key : Int × Text) : List ReportEntry → Int
  | [] => 0
  | .invalid k :: log => if k = key then invalidReports key log + 1 else invalidReports key log
  | .reset k :: log => if k = key then 0 else invalidReports key log

/-- A replaced auto session: the position its successor's row starts from, and the one
the auto session held when it was deleted. -/
structure Carry where
  carried : Option ℚ
  held : ℚ
  deriving DecidableEq

structure ReportStore where
  table : SessionTable
  log : List ReportEntry := []
  carries : List Carry := []

def ReportStore.empty : ReportStore := { table := .empty }

section step
variable (toLowercase : Lowercase)

def reportEntries (t : SessionTable) : SessionCall → List ReportEntry
  | .reportRead report existing =>
    match t.get existing.key, normalizeSessionHealthState toLowercase report.healthState with
    | some _, .invalid => [.invalid existing.key]
    | some _, .healthy => [.reset existing.key]
    | _, _ => []
  | .sourceReported userId sourceHash _ =>
    (t.select (reportsSource toLowercase userId sourceHash)).map fun a => .invalid a.1
  | .persistReadAuto input _ _ => [.reset input.key]
  | _ => []

/-- The auto session a commit deletes when it inserts its own row. -/
def replacedSession (t : SessionTable) (input : PersistPlaybackSessionInput) :
    Option PlaybackSessionRow :=
  match t.get input.key with
  | none => (input.replacedKey toLowercase).bind t.get
  | some _ => none

def reportCarries (t after : SessionTable) : SessionCall → List Carry
  | .persistReadAuto input _ _ =>
    (replacedSession toLowercase t input).toList.map fun auto =>
      ⟨(after.get input.key).map PlaybackSessionRow.lastPositionSeconds, auto.lastPositionSeconds⟩
  | _ => []

/-- What a call's next statement does to the table, and where the call goes on. -/
def nextStatement (t : SessionTable) (now : Int) : SessionCall → SessionTable × Option SessionCall
  | .reportReceived report =>
    (t, (getPlaybackSessionInner toLowercase t report.userId report.sessionKey).map
      (.reportRead report))
  | .reportRead report existing =>
    (updatePlaybackSessionProgress toLowercase t now existing report.positionSeconds
      report.healthState report.lastError, none)
  | .sourceReported userId sourceHash reason =>
    (invalidatePlaybackSessionsBySourceHash toLowercase t now userId sourceHash reason, none)
  | .persistReceived input =>
    if input.isComplete then
      (t, some (.persistReadSession input
        (getPlaybackSessionInner toLowercase t input.userId (trim input.sessionKey))))
    else (t, none)
  | .persistReadSession input existing =>
    (t, some (.persistReadAuto input existing ((input.autoSessionKey toLowercase).bind
      (getPlaybackSessionInner toLowercase t input.userId))))
  | .persistReadAuto input existing autoSession =>
    (commitPlaybackSession toLowercase t now input (persistedPosition existing autoSession),
      some .persistCommitted)
  | .persistCommitted => (t, some (.persistCounted (playbackSessionOverflow t)))
  | .persistCounted overflow => (trimPlaybackSessions t overflow, none)

def sessionReports : Protocol ReportStore SessionCall SessionRequest Int where
  start
    | .updateProgress report => .reportReceived report
    | .invalidateBySourceHash userId sourceHash reason => .sourceReported userId sourceHash reason
    | .persist input => .persistReceived input
  next s call now :=
    let after := nextStatement toLowercase s.table now call
    ({ table := after.1
       log := reportEntries toLowercase s.table call ++ s.log
       carries := reportCarries toLowercase s.table after.1 call ++ s.carries }, after.2)

/-- Every row counts the invalid reports on it, and every row that replaced an auto
session starts where that session stood. -/
structure NothingLost (s : ReportStore) : Prop where
  counted : ∀ key row, s.table.get key = some row → row.healthFailCount = invalidReports key s.log
  carried : ∀ carry ∈ s.carries, carry.carried = some carry.held

/-- The position a persist starts from as its reads gave it. -/
def readPosition (existing autoSession : Option PlaybackSession) : ℚ :=
  ((existing.or autoSession).map PlaybackSession.lastPositionSeconds).getD 0

/-- What a call is about to write from is what the table holds. -/
def ReadsCurrent (s : ReportStore) (call : SessionCall) (_ : Int) : Prop :=
  match call with
  | .reportRead report existing =>
    normalizeSessionHealthState toLowercase report.healthState ≠ .healthy →
      ∀ row, s.table.get existing.key = some row → existing.healthFailCount = row.healthFailCount
  | .persistReadAuto input existing autoSession =>
    ∀ auto, replacedSession toLowercase s.table input = some auto →
      readPosition existing autoSession = auto.lastPositionSeconds
  | _ => True

/-- The positions a call has read are not negative. -/
def PositionsRead : SessionCall → Prop
  | .persistReadSession _ existing => 0 ≤ readPosition existing none
  | .persistReadAuto _ existing autoSession => 0 ≤ readPosition existing autoSession
  | _ => True

end step

variable {toLowercase : Lowercase} {t : SessionTable} {key : Int × Text} {log : List ReportEntry}

attribute [local simp] nextStatement

theorem invalidReports_nonneg (key : Int × Text) (log : List ReportEntry) :
    0 ≤ invalidReports key log := by
  induction log with
  | nil => exact le_rfl
  | cons e log ih => cases e <;> simp only [invalidReports] <;> split <;> omega

/-- One report on each of several rows counts once on each. -/
theorem invalidReports_map_invalid (key : Int × Text) (log : List ReportEntry)
    {keys : List (Int × Text)} (hkeys : keys.Nodup) :
    invalidReports key (keys.map ReportEntry.invalid ++ log) =
      if key ∈ keys then invalidReports key log + 1 else invalidReports key log := by
  induction keys with
  | nil => simp
  | cons k keys ih =>
    rw [List.nodup_cons] at hkeys
    simp only [List.map_cons, List.cons_append, invalidReports, ih hkeys.2, List.mem_cons]
    by_cases hk : k = key
    · subst hk
      simp [hkeys.1]
    · simp [hk, Ne.symm hk]

theorem select_keys_nodup (t : SessionTable) (p : Int × Text → PlaybackSessionRow → Bool) :
    ((t.select p).map Prod.fst).Nodup :=
  t.nodup.sublist (List.Sublist.map Prod.fst List.filter_sublist)

theorem mem_select_keys {p : Int × Text → PlaybackSessionRow → Bool} {row : PlaybackSessionRow}
    (hrow : t.get key = some row) : key ∈ (t.select p).map Prod.fst ↔ p key row = true := by
  rw [List.mem_map]
  constructor
  · rintro ⟨⟨k, r⟩, hmem, rfl⟩
    obtain ⟨hr, hp⟩ := mem_select.mp hmem
    rw [hrow, Option.some.injEq] at hr
    rwa [hr]
  · intro hp
    exact ⟨(key, row), mem_select.mpr ⟨hrow, hp⟩, rfl⟩

/-- A call that leaves the table and the logs alone loses nothing. -/
theorem nothingLost_quiet {s : ReportStore} {call : SessionCall} {now : Int}
    (htable : ∀ key row, (nextStatement toLowercase s.table now call).1.get key = some row →
      s.table.get key = some row)
    (hlog : reportEntries toLowercase s.table call = [])
    (hcarries : reportCarries toLowercase s.table (nextStatement toLowercase s.table now call).1 call = [])
    (hs : NothingLost s) : NothingLost ((sessionReports toLowercase).next s call now).1 where
  counted := fun key row hrow => by
    have hcount := hs.counted key row (htable key row hrow)
    simpa only [sessionReports, hlog, List.nil_append] using hcount
  carried := by simpa only [sessionReports, hcarries, List.nil_append] using hs.carried

theorem getPlaybackSessionInner_position {userId : Int} {sessionKey : Text} :
    0 ≤ ((getPlaybackSessionInner toLowercase t userId sessionKey).map
      PlaybackSession.lastPositionSeconds).getD 0 := by
  rw [getPlaybackSessionInner]
  cases t.get (userId, sessionKey) with
  | none => exact le_rfl
  | some row => exact le_max_right _ _

theorem persistedPosition_eq {existing autoSession : Option PlaybackSession}
    (h : 0 ≤ readPosition existing autoSession) :
    persistedPosition existing autoSession = readPosition existing autoSession := by
  have hread : persistedPosition existing autoSession = max (readPosition existing autoSession) 0 := by
    cases existing <;> rfl
  rw [hread, max_eq_left h]

theorem sessionReports_keeps :
    (sessionReports toLowercase).Keeps (fun _ => True) (fun _ => PositionsRead) where
  start := fun _ request _ => by cases request <;> trivial
  store := fun _ _ _ _ _ => trivial
  own := fun s call now call' _ hcall hnext => by
    cases call with
    | reportReceived report =>
      obtain ⟨existing, -, rfl⟩ := Option.map_eq_some_iff.mp hnext
      trivial
    | persistReceived input =>
      simp only [sessionReports, nextStatement] at hnext
      split at hnext
      · rw [← Option.some.inj hnext]
        simpa only [PositionsRead, readPosition, Option.or_none] using getPlaybackSessionInner_position
      · cases hnext
    | persistReadSession input existing =>
      rw [← Option.some.inj hnext]
      cases existing with
      | some session => exact hcall
      | none =>
        simp only [PositionsRead, readPosition, Option.none_or]
        cases input.autoSessionKey toLowercase with
        | none => exact le_rfl
        | some autoKey => exact getPlaybackSessionInner_position
    | persistReadAuto input existing autoSession => rw [← Option.some.inj hnext]; trivial
    | persistCommitted => rw [← Option.some.inj hnext]; trivial
    | reportRead report existing => cases hnext
    | sourceReported userId sourceHash reason => cases hnext
    | persistCounted overflow => cases hnext
  frame := fun _ _ _ _ _ _ hother => hother

/-- A progress report counts right on the row it finds exactly when its read is current. -/
theorem nothingLost_report {s : ReportStore} {report : ProgressReport} {existing : PlaybackSession}
    {now : Int} (hs : NothingLost s) :
    NothingLost ((sessionReports toLowercase).next s (.reportRead report existing) now).1 ↔
      ReadsCurrent toLowercase s (.reportRead report existing) now := by
  have hget (k : Int × Text) := get_updateWhere s.table (fun key _ => decide (key = existing.key))
    (progressRow toLowercase now existing report.positionSeconds report.healthState
      report.lastError) k
  cases hrow : s.table.get existing.key with
  | none =>
    refine iff_of_true (nothingLost_quiet (fun key row hr => ?_) ?_ rfl hs) fun _ row hr =>
      absurd (hrow.symm.trans hr) nofun
    · have hne : key ≠ existing.key := by
        rintro rfl
        have hr' := (hget existing.key).symm.trans hr
        rw [hrow] at hr'
        cases hr'
      have hr' := (hget key).symm.trans hr
      rw [decide_eq_false hne] at hr'
      simpa using hr'
    · rw [reportEntries, hrow]
  | some row =>
    have hcount := hs.counted existing.key row hrow
    have hafter := hget existing.key
    rw [hrow, Option.map_some, if_pos (decide_eq_true rfl)] at hafter
    -- other rows and their reports stay
    have hother : ∀ key r, key ≠ existing.key →
        ((sessionReports toLowercase).next s (.reportRead report existing) now).1.table.get key = some r →
        r.healthFailCount = invalidReports key
          ((sessionReports toLowercase).next s (.reportRead report existing) now).1.log := by
      intro key r hne hr
      have hr' := (hget key).symm.trans hr
      rw [decide_eq_false hne] at hr'
      have hold := hs.counted key r (by simpa using hr')
      simp only [sessionReports, reportEntries, hrow]
      cases normalizeSessionHealthState toLowercase report.healthState <;>
        simpa [invalidReports, Ne.symm hne] using hold
    have hthis : NothingLost ((sessionReports toLowercase).next s (.reportRead report existing) now).1 ↔
        nextFailCount existing (normalizeSessionHealthState toLowercase report.healthState) =
          invalidReports existing.key
            ((sessionReports toLowercase).next s (.reportRead report existing) now).1.log := by
      constructor
      · intro h
        exact h.counted existing.key _ hafter
      · intro h
        refine ⟨fun key r hr => ?_, hs.carried⟩
        by_cases hkey : key = existing.key
        · subst hkey
          rw [← Option.some.inj (hafter.symm.trans hr)]
          exact h
        · exact hother key r hkey hr
    rw [hthis]
    simp only [ReadsCurrent, hrow, Option.some.injEq, forall_eq', hcount, sessionReports, reportEntries]
    cases normalizeSessionHealthState toLowercase report.healthState <;>
      simp [nextFailCount, invalidReports]

theorem nothingLost_sourceReported {s : ReportStore} {userId : Int} {sourceHash reason : Text}
    {now : Int} (hs : NothingLost s) :
    NothingLost ((sessionReports toLowercase).next s (.sourceReported userId sourceHash reason) now).1 := by
  refine ⟨fun key r hr => ?_, hs.carried⟩
  have hget : _ = some r := (get_updateWhere s.table (reportsSource toLowercase userId sourceHash)
    (markInvalid now reason) key).symm.trans hr
  obtain ⟨row, hrow, rfl⟩ := Option.map_eq_some_iff.mp hget
  have hcount := hs.counted key row hrow
  have hlog := invalidReports_map_invalid key s.log
    (select_keys_nodup s.table (reportsSource toLowercase userId sourceHash))
  rw [List.map_map] at hlog
  refine Eq.trans ?_ hlog.symm
  rw [← hcount]
  split
  · next hp => rw [if_pos ((mem_select_keys hrow).mpr hp)]; rfl
  · next hp => rw [if_neg fun h => hp ((mem_select_keys hrow).mp h)]

/-- A persist resets the count of its row, and carries the position it has read. -/
theorem nothingLost_persist {s : ReportStore} {input : PersistPlaybackSessionInput}
    {existing autoSession : Option PlaybackSession} {now : Int}
    (hread : 0 ≤ readPosition existing autoSession) (hs : NothingLost s) :
    NothingLost ((sessionReports toLowercase).next s (.persistReadAuto input existing autoSession) now).1 ↔
      ReadsCurrent toLowercase s (.persistReadAuto input existing autoSession) now := by
  have hget (k : Int × Text) := get_commitPlaybackSession toLowercase s.table input now
    (persistedPosition existing autoSession) k
  have hcounted : ∀ key row,
      ((sessionReports toLowercase).next s (.persistReadAuto input existing autoSession) now).1.table.get
        key = some row →
      row.healthFailCount = invalidReports key
        ((sessionReports toLowercase).next s (.persistReadAuto input existing autoSession) now).1.log := by
    intro key row hrow
    have hrow' := (hget key).symm.trans hrow
    simp only [sessionReports, reportEntries, List.singleton_append, invalidReports]
    by_cases hkey : key = input.key
    · rw [if_pos hkey] at hrow'
      rw [if_pos hkey.symm, ← Option.some.inj hrow']
      rfl
    · rw [if_neg hkey] at hrow'
      rw [if_neg (Ne.symm hkey)]
      split at hrow'
      · cases hrow'
      · exact hs.counted key row hrow'
  simp only [ReadsCurrent]
  cases hreplaced : replacedSession toLowercase s.table input with
  | none =>
    refine iff_of_true ⟨hcounted, ?_⟩ fun auto hauto => absurd hauto.symm (Option.some_ne_none auto)
    simpa only [sessionReports, reportCarries, hreplaced, Option.toList_none, List.map_nil,
      List.nil_append] using hs.carried
  | some auto =>
    have hnew : s.table.get input.key = none := by
      rw [replacedSession] at hreplaced
      split at hreplaced
      · assumption
      · cases hreplaced
    have hposition : ((commitPlaybackSession toLowercase s.table now input
        (persistedPosition existing autoSession)).get input.key).map
          PlaybackSessionRow.lastPositionSeconds = some (readPosition existing autoSession) := by
      rw [hget, if_pos rfl, hnew, ← persistedPosition_eq hread]
      rfl
    constructor
    · intro h auto' hauto
      have hcarry := h.carried ⟨_, auto.lastPositionSeconds⟩ (by
        simp only [sessionReports, nextStatement, reportCarries, hreplaced]
        exact List.mem_cons_self)
      rw [hposition, Option.some.injEq] at hcarry
      rw [hcarry, ← Option.some.inj hauto]
    · intro h
      refine ⟨hcounted, ?_⟩
      simp only [sessionReports, nextStatement, reportCarries, hreplaced, Option.toList_some,
        List.map_cons, List.map_nil, List.singleton_append, List.forall_mem_cons]
      exact ⟨by rw [hposition, h auto rfl], hs.carried⟩

theorem nothingLost_next {s : ReportStore} {call : SessionCall} {now : Int}
    (hcall : PositionsRead call) (hs : NothingLost s) :
    NothingLost ((sessionReports toLowercase).next s call now).1 ↔ ReadsCurrent toLowercase s call now := by
  cases call with
  | reportRead report existing => exact nothingLost_report hs
  | persistReadAuto input existing autoSession => exact nothingLost_persist hcall hs
  | sourceReported userId sourceHash reason => exact iff_of_true (nothingLost_sourceReported hs) trivial
  | reportReceived report =>
    exact iff_of_true (nothingLost_quiet (fun _ _ hrow => hrow) rfl rfl hs) trivial
  | persistReceived input =>
    refine iff_of_true (nothingLost_quiet (fun key row hrow => ?_) rfl rfl hs) trivial
    simp only [nextStatement] at hrow
    split at hrow <;> exact hrow
  | persistReadSession input existing =>
    exact iff_of_true (nothingLost_quiet (fun _ _ hrow => hrow) rfl rfl hs) trivial
  | persistCommitted =>
    exact iff_of_true (nothingLost_quiet (fun _ _ hrow => hrow) rfl rfl hs) trivial
  | persistCounted overflow =>
    refine iff_of_true (nothingLost_quiet (fun key row hrow => ?_) rfl rfl hs) trivial
    have hget := (get_deleteWhere s.table _ key).symm.trans hrow
    exact (Option.filter_eq_some_iff.mp hget).1

theorem nothingLost_empty : NothingLost .empty :=
  ⟨fun _ _ hrow => absurd hrow.symm (Option.some_ne_none _),
    fun _ hcarry => absurd hcarry List.not_mem_nil⟩

/-- No report and no position is lost in a run exactly when every write finds the row
its call has read. -/
theorem session_reports_kept_iff (toLowercase : Lowercase) (events : List (Event SessionRequest Int)) :
    Throughout (sessionReports toLowercase).step (fun w => NothingLost w.store) (.idle .empty) events ↔
      Each (sessionReports toLowercase).step (Allowed (ReadsCurrent toLowercase)) (.idle .empty)
        events :=
  sessionReports_keeps.apart.throughout_iff (fun _ _ _ _ hcall hs => nothingLost_next hcall hs)
    (World.sound_idle trivial) nothingLost_empty

def filmReport : ProgressReport where
  userId := 7
  sessionKey := resolvedFilm.sessionKey
  positionSeconds := 60
  healthState := "invalid".toList
  lastError := "stalled".toList

/-- Two players report the same film; both reports read the row before either writes. -/
def crossedReports : List (Event SessionRequest Int) :=
  Event.begin 0 (SessionRequest.persist resolvedFilm) :: List.replicate 5 (Event.advance 0 1000) ++
    [.begin 1 (.updateProgress filmReport), .begin 2 (.updateProgress filmReport),
      .advance 1 2000, .advance 2 2001, .advance 1 2002, .advance 2 2003]

theorem crossed_reports_lost :
    ¬∀ events, Throughout (sessionReports toAsciiLowercase).step (fun w => NothingLost w.store)
      (.idle .empty) events := by
  intro h
  have hlast := (h crossedReports).last
  have hrow : ((crossedReports.foldl (sessionReports toAsciiLowercase).step
      (.idle .empty)).store.table.get resolvedFilm.key).map
        PlaybackSessionRow.healthFailCount = some 1 := by decide +kernel
  have hreports : invalidReports resolvedFilm.key (crossedReports.foldl
      (sessionReports toAsciiLowercase).step (.idle .empty)).store.log = 2 := by
    decide +kernel
  obtain ⟨row, hget, hone⟩ := Option.map_eq_some_iff.mp hrow
  have hcount := hlast.counted _ row hget
  rw [hone, hreports] at hcount
  exact absurd hcount (by decide)

end StreamArena.Playback
