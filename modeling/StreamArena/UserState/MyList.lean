import StreamArena.Library.Calls
import StreamArena.UserState.Requests

/-! My List (src/routes.rs, src/persistence.rs): a `PUT` replaces the list in one
transaction; a sync reads it, merges its own entries into what it read and replaces
the list in a later transaction. -/
namespace StreamArena.UserState
open AsciiText JsonValue KeyedTable Routes Calls Runs

/-- An entry as the handlers pass it on: its identity, when it was added, and its other
fields. -/
structure MyListEntry where
  itemIdentity : Text
  addedAt : Int
  fields : List (Text × Value)

/-- The row of one user's entry; `details_json` repeats the key columns, which a read
writes over. -/
structure MyListRow where
  addedAt : Int
  fields : List (Text × Value)

abbrev MyListTable := Table Text MyListRow

def boundedField (entry : Value) (maxBytes : Nat) (field : Text) : Option (Text × Value) :=
  (boundedStringField entry field maxBytes).map fun value => (field, .string value)

def boundedI64Field (entry : Value) (field : Text) (least most : Int) : Option (Text × Value) :=
  ((entry.get field).bind Value.asI64).map fun value => (field, .int (max least (min value most)))

def myListTextFields : List Text :=
  ["title".toList, "episode".toList, "tmdbId".toList, "mediaType".toList, "seriesId".toList,
    "year".toList, "libraryType".toList, "libraryId".toList]

def sanitizeMyListEntry (now : Nat) (entry : Value) : Option MyListEntry :=
  (boundedStringField entry "itemIdentity".toList userIdentityMaxBytes).map fun itemIdentity =>
    { itemIdentity
      addedAt := normalizeUserUpdatedAt now ((entry.get "addedAt".toList).bind Value.asI64)
      fields := myListTextFields.filterMap (boundedField entry userSmallTextMaxBytes) ++
        ["src".toList, "thumb".toList, "librarySrc".toList].filterMap
          (boundedField entry userUrlMaxBytes) ++
        (boundedI64Field entry "episodeIndex".toList (-1) 1000000).toList }

def sanitizeMyListEntries (now : Nat) (entries : List Value) : List MyListEntry :=
  (entries.take userSyncMaxEntries).filterMap (sanitizeMyListEntry now)

def rowEntry (a : Text × MyListRow) : MyListEntry := ⟨a.1, a.2.addedAt, a.2.fields⟩

/-- Newest first. -/
def getUserMyList (t : MyListTable) : List MyListEntry :=
  (t.rows.mergeSort fun a b => decide (b.2.addedAt ≤ a.2.addedAt)).map rowEntry

/-- An entry without an identity is skipped; an identity that is there already fails. -/
def insertMyListEntry (t : MyListTable) (entry : MyListEntry) : Option MyListTable :=
  if entry.itemIdentity.isEmpty then some t
  else if (t.get entry.itemIdentity).isSome then none
  else some (t.upsert entry.itemIdentity ⟨entry.addedAt, entry.fields⟩ id)

/-- One transaction, after the `DELETE` of the whole list; a failed one changes nothing. -/
def replaceUserMyList (entries : List MyListEntry) : Option MyListTable :=
  entries.foldlM insertMyListEntry .empty

/-- One entry of the request merged in, unless it is known, has no identity or the list
is full. -/
def mergeMyListEntry (state : List MyListEntry × List Text) (entry : MyListEntry) :
    List MyListEntry × List Text :=
  let itemIdentity := trim entry.itemIdentity
  if itemIdentity.isEmpty || state.2.contains itemIdentity ||
      decide (state.1.length ≥ userSyncMaxEntries) then state
  else (state.1 ++ [entry], itemIdentity :: state.2)

def mergeMyList (stored incoming : List MyListEntry) : List MyListEntry :=
  let merged := stored.take userSyncMaxEntries
  let known := (merged.map fun entry => trim entry.itemIdentity).filter fun id => !id.isEmpty
  (incoming.foldl mergeMyListEntry (merged, known)).1

/-- A sync that is not interrupted. -/
def syncMyList (t : MyListTable) (now : Nat) (myList : List Value) : Option MyListTable :=
  replaceUserMyList (mergeMyList (getUserMyList t) (sanitizeMyListEntries now myList))

inductive ListRequest where
  | put (entries : List Value)
  | sync (myList : List Value)

/-- A request between its steps; a sync with the list it has read. -/
inductive ListCall where
  | putReceived (entries : List Value)
  | syncReceived (myList : List Value)
  | syncRead (myList : List Value) (stored : List MyListEntry)

/-- An acknowledged request and the time of its commit. -/
inductive ListCommit where
  | put (now : Nat) (entries : List Value)
  | sync (now : Nat) (myList : List Value)

/-- The list with the acknowledged requests, newest first. -/
structure ListStore where
  table : MyListTable
  log : List ListCommit := []

/-- A failed transaction leaves the list and is not acknowledged. -/
def ListStore.commit (s : ListStore) (entries : List MyListEntry) (acknowledged : ListCommit) :
    ListStore :=
  match replaceUserMyList entries with
  | some table => ⟨table, acknowledged :: s.log⟩
  | none => s

def myListRequests : Protocol ListStore ListCall ListRequest Nat where
  start
    | .put entries => .putReceived entries
    | .sync myList => .syncReceived myList
  next s call now :=
    match call with
    | .putReceived entries =>
      if entries.length > userSyncMaxEntries then (s, none)
      else (s.commit (sanitizeMyListEntries now entries) (.put now entries), none)
    | .syncReceived myList => (s, some (.syncRead myList (getUserMyList s.table)))
    | .syncRead myList stored =>
      (s.commit (mergeMyList stored (sanitizeMyListEntries now myList)) (.sync now myList), none)

/-- An acknowledged request run alone, its steps together. -/
def ListCommit.apply (t : MyListTable) : ListCommit → MyListTable
  | .put now entries => (replaceUserMyList (sanitizeMyListEntries now entries)).getD t
  | .sync now myList => (syncMyList t now myList).getD t

/-- The acknowledged requests one after the other, the last one first in the list. -/
def serialList (start : MyListTable) (log : List ListCommit) : MyListTable :=
  log.foldr (fun commit t => commit.apply t) start

/-- The list is what some serial order of the acknowledged requests gives. -/
def Serializable (start : MyListTable) (s : ListStore) : Prop :=
  ∃ order, order.Perm s.log ∧ s.table = serialList start order

/-- Within the cap, and every entry has an identity. -/
structure WithinCap (t : MyListTable) : Prop where
  length_le : t.rows.length ≤ userSyncMaxEntries
  get_nil : t.get [] = none

/-- A sync replaces the list it has read. -/
def ListUnchanged (s : ListStore) (call : ListCall) (_ : Nat) : Prop :=
  match call with
  | .syncRead _ stored => getUserMyList s.table = stored
  | _ => True

variable {t after : MyListTable} {entry : MyListEntry} {entries : List MyListEntry} {now : Nat}

theorem mem_getUserMyList : entry ∈ getUserMyList t ↔
    t.get entry.itemIdentity = some ⟨entry.addedAt, entry.fields⟩ := by
  rw [getUserMyList, List.mem_map]
  simp only [List.mem_mergeSort, ← t.mem_rows_iff]
  constructor
  · rintro ⟨a, ha, rfl⟩
    exact ha
  · intro h
    exact ⟨_, h, rfl⟩

theorem getUserMyList_length (t : MyListTable) : (getUserMyList t).length = t.rows.length := by
  rw [getUserMyList, List.length_map, List.length_mergeSort]

theorem getUserMyList_identities (t : MyListTable) :
    ((getUserMyList t).map MyListEntry.itemIdentity).Nodup := by
  have hperm := (List.mergeSort_perm t.rows fun a b => decide (b.2.addedAt ≤ a.2.addedAt)).map Prod.fst
  rw [getUserMyList, List.map_map]
  exact hperm.nodup_iff.mpr t.nodup

theorem sanitizeMyListEntries_length (now : Nat) (values : List Value) :
    (sanitizeMyListEntries now values).length ≤ userSyncMaxEntries :=
  (List.length_filterMap_le _ _).trans (List.length_take_le _ _)

theorem insertMyListEntry_eq_some (h : insertMyListEntry t entry = some after) :
    after.get [] = t.get [] ∧ after.rows.length ≤ t.rows.length + 1 := by
  unfold insertMyListEntry at h
  split at h
  · rw [← Option.some.inj h]
    exact ⟨rfl, Nat.le_succ _⟩
  · next hne =>
    split at h
    · cases h
    · next hfree =>
      rw [Bool.not_eq_true, Option.isSome_eq_false_iff, Option.isNone_iff_eq_none] at hfree
      rw [← Option.some.inj h]
      have hnil : [] ≠ entry.itemIdentity := fun he => hne (he ▸ rfl)
      exact ⟨get_upsert_of_ne t hnil _ id, (length_upsert_of_free hfree _ id).le⟩

theorem foldlM_insert_eq_some (h : entries.foldlM insertMyListEntry t = some after) :
    after.get [] = t.get [] ∧ after.rows.length ≤ t.rows.length + entries.length := by
  induction entries generalizing t with
  | nil =>
    rw [← Option.some.inj h]
    exact ⟨rfl, le_rfl⟩
  | cons entry entries ih =>
    obtain ⟨next, hnext, hrest⟩ := Option.bind_eq_some_iff.mp h
    obtain ⟨hget, hlength⟩ := insertMyListEntry_eq_some hnext
    obtain ⟨hget', hlength'⟩ := ih hrest
    refine ⟨hget'.trans hget, ?_⟩
    rw [List.length_cons]
    omega

theorem withinCap_replace (h : replaceUserMyList entries = some after)
    (hlength : entries.length ≤ userSyncMaxEntries) : WithinCap after := by
  obtain ⟨hget, hrows⟩ := foldlM_insert_eq_some h
  refine ⟨hrows.trans ?_, hget⟩
  simpa [Table.empty] using hlength

/-- Entries under distinct free identities all go in. -/
theorem foldlM_insert (hnodup : (entries.map MyListEntry.itemIdentity).Nodup)
    (hfree : ∀ entry ∈ entries, t.get entry.itemIdentity = none) :
    ∃ after, entries.foldlM insertMyListEntry t = some after ∧
      ∀ entry, entry ∈ getUserMyList after ↔
        entry ∈ getUserMyList t ∨ entry ∈ entries ∧ entry.itemIdentity ≠ [] := by
  induction entries generalizing t with
  | nil => exact ⟨t, rfl, by simp⟩
  | cons head entries ih =>
    rw [List.map_cons, List.nodup_cons] at hnodup
    have hhead := hfree head List.mem_cons_self
    have hrest := fun entry hentry => hfree entry (List.mem_cons_of_mem head hentry)
    by_cases hempty : head.itemIdentity = []
    · obtain ⟨after, hafter, hmem⟩ := ih hnodup.2 hrest
      refine ⟨after, ?_, fun entry => ?_⟩
      · rw [List.foldlM_cons, insertMyListEntry, if_pos (by rw [hempty]; rfl)]
        exact hafter
      · rw [hmem, List.mem_cons]
        constructor
        · exact Or.imp_right fun h => ⟨.inr h.1, h.2⟩
        · refine Or.imp_right fun h => ⟨h.1.resolve_left fun he => h.2 ?_, h.2⟩
          rw [he, hempty]
    · have hfree' : ∀ entry ∈ entries,
          (t.upsert head.itemIdentity ⟨head.addedAt, head.fields⟩ id).get entry.itemIdentity = none := by
        intro entry hentry
        have hne : entry.itemIdentity ≠ head.itemIdentity := fun he =>
          hnodup.1 (he ▸ List.mem_map_of_mem hentry)
        rw [get_upsert_of_ne t hne]
        exact hrest entry hentry
      obtain ⟨after, hafter, hmem⟩ := ih hnodup.2 hfree'
      refine ⟨after, ?_, fun entry => ?_⟩
      · rw [List.foldlM_cons, insertMyListEntry, if_neg (by simpa using hempty), hhead]
        exact hafter
      · rw [hmem, mem_getUserMyList, get_upsert, hhead, Option.elim_none, List.mem_cons,
          mem_getUserMyList]
        by_cases he : entry.itemIdentity = head.itemIdentity
        · rw [if_pos he, he, hhead]
          constructor
          · rintro (hrow | h)
            · obtain ⟨hadded, hfields⟩ := MyListRow.mk.inj (Option.some.inj hrow)
              refine .inr ⟨.inl ?_, hempty⟩
              cases entry
              cases head
              simp_all
            · exact .inr ⟨.inr h.1, hempty⟩
          · rintro (hrow | ⟨rfl | h, -⟩)
            · cases hrow
            · exact .inl rfl
            · exact absurd (he ▸ List.mem_map_of_mem h) hnodup.1
        · rw [if_neg he]
          refine or_congr_right (and_congr_left fun _ => ?_)
          exact (or_iff_right fun h => he (congrArg MyListEntry.itemIdentity h)).symm

theorem mem_replaceUserMyList (hnodup : (entries.map MyListEntry.itemIdentity).Nodup) :
    ∃ after, replaceUserMyList entries = some after ∧
      ∀ entry, entry ∈ getUserMyList after ↔ entry ∈ entries ∧ entry.itemIdentity ≠ [] := by
  obtain ⟨after, hafter, hmem⟩ := foldlM_insert hnodup (t := .empty) fun _ _ => rfl
  refine ⟨after, hafter, fun entry => (hmem entry).trans (or_iff_right fun h => ?_)⟩
  exact absurd (mem_getUserMyList.mp h) nofun

/-- What the merge keeps entry by entry. -/
structure MergeInv (stored : List MyListEntry) (state : List MyListEntry × List Text) : Prop where
  length_le : state.1.length ≤ userSyncMaxEntries
  nodup : (state.1.map MyListEntry.itemIdentity).Nodup
  known : ∀ entry ∈ state.1, trim entry.itemIdentity ≠ [] → trim entry.itemIdentity ∈ state.2
  keeps : stored.take userSyncMaxEntries ⊆ state.1

theorem MergeInv.step {stored : List MyListEntry} {state : List MyListEntry × List Text}
    (h : MergeInv stored state) (entry : MyListEntry) : MergeInv stored (mergeMyListEntry state entry) := by
  unfold mergeMyListEntry
  dsimp only
  split
  · exact h
  · next hnew =>
    simp only [Bool.or_eq_true, List.isEmpty_iff, List.contains_iff_mem, decide_eq_true_eq, not_or,
      not_le] at hnew
    obtain ⟨⟨hempty, hunknown⟩, hroom⟩ := hnew
    refine ⟨?_, ?_, ?_, fun e he => List.mem_append_left _ (h.keeps he)⟩
    · rw [List.length_append, List.length_singleton]
      omega
    · rw [List.map_append, List.map_singleton]
      refine List.nodup_append.mpr ⟨h.nodup, List.nodup_singleton _, ?_⟩
      rintro id hid id' hid' rfl
      obtain ⟨other, hother, hsame⟩ := List.mem_map.mp hid
      rw [List.mem_singleton] at hid'
      have htrim : trim other.itemIdentity = trim entry.itemIdentity := by rw [hsame, hid']
      exact hunknown (htrim ▸ h.known other hother (htrim ▸ hempty))
    · intro other hother hne
      rcases List.mem_append.mp hother with hother | hother
      · exact List.mem_cons_of_mem _ (h.known other hother hne)
      · rw [List.mem_singleton.mp hother]
        exact List.mem_cons_self

theorem mergeMyListEntry_subset (state : List MyListEntry × List Text) (entry : MyListEntry) :
    (mergeMyListEntry state entry).1 ⊆ state.1 ++ [entry] := by
  unfold mergeMyListEntry
  dsimp only
  split
  · exact List.subset_append_left _ _
  · exact List.Subset.refl _

theorem foldl_merge_subset (incoming : List MyListEntry) (state : List MyListEntry × List Text) :
    (incoming.foldl mergeMyListEntry state).1 ⊆ state.1 ++ incoming := by
  induction incoming generalizing state with
  | nil => simp
  | cons entry incoming ih =>
    intro e he
    rcases List.mem_append.mp (ih _ he) with he | he
    · rcases List.mem_append.mp (mergeMyListEntry_subset state entry he) with he | he
      · exact List.mem_append_left _ he
      · exact List.mem_append_right _ (List.mem_cons.mpr (.inl (List.mem_singleton.mp he)))
    · exact List.mem_append_right _ (List.mem_cons_of_mem _ he)

theorem mergeInv_mergeMyList {stored : List MyListEntry}
    (hstored : (stored.map MyListEntry.itemIdentity).Nodup) (incoming : List MyListEntry) :
    ∃ known, MergeInv stored (mergeMyList stored incoming, known) := by
  refine ⟨_, List.foldlRecOn (motive := MergeInv stored) incoming mergeMyListEntry ⟨?_, ?_, ?_, ?_⟩
    fun state h entry _ => h.step entry⟩
  · exact List.length_take_le _ _
  · exact hstored.sublist (List.Sublist.map _ (List.take_sublist _ _))
  · intro entry hentry hne
    exact List.mem_filter.mpr ⟨List.mem_map_of_mem hentry, by simpa using hne⟩
  · exact List.Subset.refl _

theorem mergeMyList_subset (stored incoming : List MyListEntry) :
    mergeMyList stored incoming ⊆ stored ++ incoming := by
  intro entry hentry
  rcases List.mem_append.mp (foldl_merge_subset incoming _ hentry) with h | h
  · exact List.mem_append_left _ (List.take_subset _ _ h)
  · exact List.mem_append_right _ h

/-- A list of more entries than the cap, or with one that has no identity, loses some. -/
theorem withinCap_of_kept (hafter : WithinCap after)
    (hkept : ∀ entry ∈ getUserMyList t, entry ∈ getUserMyList after) : WithinCap t where
  length_le := by
    have hnodup : (getUserMyList t).Nodup := (getUserMyList_identities t).of_map _
    have hle := (List.subperm_of_subset hnodup hkept).length_le
    rw [getUserMyList_length, getUserMyList_length] at hle
    exact hle.trans hafter.length_le
  get_nil := by
    cases hrow : t.get [] with
    | none => rfl
    | some row =>
      have hmem : (⟨[], row.addedAt, row.fields⟩ : MyListEntry) ∈ getUserMyList t :=
        mem_getUserMyList.mpr hrow
      have hrow' := mem_getUserMyList.mp (hkept _ hmem)
      exact absurd (hafter.get_nil.symm.trans hrow') nofun

/-- What a sync makes of any stored list: distinct identities within the cap, nothing
that neither side had, and everything that was stored where that is within the cap. -/
structure SyncPost (t after : MyListTable) (now : Nat) (myList : List Value) : Prop where
  committed : syncMyList t now myList = some after
  withinCap : WithinCap after
  origin : ∀ entry ∈ getUserMyList after,
    entry ∈ getUserMyList t ∨ entry ∈ sanitizeMyListEntries now myList
  kept : (∀ entry ∈ getUserMyList t, entry ∈ getUserMyList after) ↔ WithinCap t

theorem syncMyList_post (t : MyListTable) (now : Nat) (myList : List Value) :
    let merged := mergeMyList (getUserMyList t) (sanitizeMyListEntries now myList)
    (merged.map MyListEntry.itemIdentity).Nodup ∧ merged.length ≤ userSyncMaxEntries ∧
      ∃ after, SyncPost t after now myList := by
  obtain ⟨known, hinv⟩ := mergeInv_mergeMyList (getUserMyList_identities t)
    (sanitizeMyListEntries now myList)
  obtain ⟨after, hafter, hmem⟩ := mem_replaceUserMyList hinv.nodup
  have hcap := withinCap_replace hafter hinv.length_le
  refine ⟨hinv.nodup, hinv.length_le, after, hafter, hcap, fun entry hentry => ?_,
    withinCap_of_kept hcap, fun ht entry hentry => ?_⟩
  · exact List.mem_append.mp (mergeMyList_subset _ _ ((hmem entry).mp hentry).1)
  · have hlength : (getUserMyList t).length ≤ userSyncMaxEntries :=
      (getUserMyList_length t).trans_le ht.length_le
    refine (hmem entry).mpr ⟨hinv.keeps ?_, fun hempty => ?_⟩
    · rwa [List.take_of_length_le hlength]
    · have hrow := mem_getUserMyList.mp hentry
      rw [hempty, ht.get_nil] at hrow
      cases hrow

/-- A sync alone keeps what is on a list within the cap. -/
theorem sync_keeps (identity : Text) (now : Nat) (myList : List Value) (ht : WithinCap t)
    (hrow : (t.get identity).isSome = true) :
    (((ListCommit.sync now myList).apply t).get identity).isSome = true := by
  obtain ⟨-, -, after, hpost⟩ := syncMyList_post t now myList
  obtain ⟨row, hrow⟩ := Option.isSome_iff_exists.mp hrow
  have hmem : (⟨identity, row.addedAt, row.fields⟩ : MyListEntry) ∈ getUserMyList t :=
    mem_getUserMyList.mpr hrow
  have hkept := mem_getUserMyList.mp (hpost.kept.mpr ht _ hmem)
  rw [ListCommit.apply, hpost.committed, Option.getD_some, hkept]
  rfl

/-- The list as the acknowledged requests leave it in the order of their commits. -/
structure InCommitOrder (start : MyListTable) (s : ListStore) : Prop where
  table : s.table = serialList start s.log
  withinCap : WithinCap s.table

theorem InCommitOrder.commit {start : MyListTable} {s : ListStore} {acknowledged : ListCommit}
    (h : InCommitOrder start s) (hlength : entries.length ≤ userSyncMaxEntries)
    (halone : acknowledged.apply s.table = (replaceUserMyList entries).getD s.table) :
    InCommitOrder start (s.commit entries acknowledged) := by
  rw [ListStore.commit]
  cases hreplaced : replaceUserMyList entries with
  | none => exact h
  | some table =>
    refine ⟨?_, withinCap_replace hreplaced hlength⟩
    rw [hreplaced, Option.getD_some, h.table] at halone
    rw [serialList, List.foldr_cons]
    exact halone.symm

theorem inCommitOrder_next {start : MyListTable} {s : ListStore} {call : ListCall} {now : Nat}
    (hcall : ListUnchanged s call now) (h : InCommitOrder start s) :
    InCommitOrder start (myListRequests.next s call now).1 := by
  cases call with
  | putReceived entries =>
    simp only [myListRequests]
    split
    · exact h
    · exact h.commit (sanitizeMyListEntries_length now entries) rfl
  | syncReceived myList => exact h
  | syncRead myList stored =>
    have hread : getUserMyList s.table = stored := hcall
    subst hread
    obtain ⟨-, hlength, -⟩ := syncMyList_post s.table now myList
    exact h.commit hlength rfl

/-- Where every sync replaces the list it has read, the list is that of a serial order
of the acknowledged requests; and a sync alone drops nothing from a list within the cap. -/
theorem my_list_serializable (start : MyListTable) (events : List (Event ListRequest Nat))
    (hstart : WithinCap start)
    (heach : Each myListRequests.step (Allowed ListUnchanged) (.idle ⟨start, []⟩) events) :
    Throughout myListRequests.step
        (fun w => Serializable start w.store ∧ WithinCap w.store.table) (.idle ⟨start, []⟩) events ∧
      ∀ (t : MyListTable) (now : Nat) (myList : List Value),
        let merged := mergeMyList (getUserMyList t) (sanitizeMyListEntries now myList)
        (merged.map MyListEntry.itemIdentity).Nodup ∧ merged.length ≤ userSyncMaxEntries ∧
          ∃ after, SyncPost t after now myList := by
  refine ⟨?_, syncMyList_post⟩
  have hrun := throughout_of_allowed (P := InCommitOrder start)
    (fun _ _ _ hcall h => inCommitOrder_next hcall h) ⟨rfl, hstart⟩ heach
  exact hrun.imp fun w h => ⟨⟨_, .refl _, h.table⟩, h.withinCap⟩

def filmEntry (identity : Text) : Value :=
  .object [("addedAt".toList, .int 1000), ("itemIdentity".toList, .string identity)]

/-- A second device adds a film before a sync of the first reads the list. -/
theorem my_list_serializable_put_then_sync :
    Throughout myListRequests.step
      (fun w => Serializable .empty w.store ∧ WithinCap w.store.table) (.idle ⟨.empty, []⟩)
      [.begin 0 (.put [filmEntry "tmdb:movie:1".toList]), .advance 0 2000,
        .begin 1 (.sync [filmEntry "tmdb:movie:2".toList]), .advance 1 3000, .advance 1 3001] := by
  refine (my_list_serializable .empty _ ⟨by decide, rfl⟩ ?_).1
  refine ⟨trivial, fun call hcall => ?_, trivial, fun call hcall => ?_, fun call hcall => ?_, trivial⟩
  · rw [← show ListCall.putReceived [filmEntry "tmdb:movie:1".toList] = call from Option.some.inj hcall]
    trivial
  · rw [← show ListCall.syncReceived [filmEntry "tmdb:movie:2".toList] = call from Option.some.inj hcall]
    trivial
  · rw [← show ListCall.syncRead [filmEntry "tmdb:movie:2".toList] _ = call from Option.some.inj hcall]
    rfl

/-- A film put on the list while a sync holds the list it read before. -/
def syncAcrossPut : List (Event ListRequest Nat) :=
  [.begin 0 (.sync [filmEntry "tmdb:movie:2".toList]), .advance 0 2000,
    .begin 1 (.put [filmEntry "tmdb:movie:1".toList]), .advance 1 3000, .advance 0 4000]

theorem sync_drops_put :
    ¬∀ events, Throughout myListRequests.step (fun w => Serializable .empty w.store)
      (.idle ⟨.empty, []⟩) events := by
  intro h
  obtain ⟨order, hperm, htable⟩ := (h syncAcrossPut).last
  have hdropped : ((syncAcrossPut.foldl myListRequests.step (.idle ⟨.empty, []⟩)).store.table.get
      "tmdb:movie:1".toList).isSome = false := by decide +kernel
  have hlog : (syncAcrossPut.foldl myListRequests.step (.idle ⟨.empty, []⟩)).store.log =
      [.sync 4000 [filmEntry "tmdb:movie:2".toList], .put 3000 [filmEntry "tmdb:movie:1".toList]] := by
    with_unfolding_all rfl
  rw [hlog, List.perm_pair] at hperm
  rw [htable] at hdropped
  rcases hperm with rfl | rfl
  · have hkept := sync_keeps (t := serialList .empty [.put 3000 [filmEntry "tmdb:movie:1".toList]])
      "tmdb:movie:1".toList 4000 [filmEntry "tmdb:movie:2".toList]
      ⟨by decide +kernel, by decide +kernel⟩ (by decide +kernel)
    exact absurd (hkept.symm.trans hdropped) nofun
  · have hput : ((serialList .empty [.put 3000 [filmEntry "tmdb:movie:1".toList],
        .sync 4000 [filmEntry "tmdb:movie:2".toList]]).get "tmdb:movie:1".toList).isSome = true := by
      decide +kernel
    exact absurd (hput.symm.trans hdropped) nofun

end StreamArena.UserState
