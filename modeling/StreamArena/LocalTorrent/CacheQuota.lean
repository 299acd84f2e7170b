import Mathlib
import StreamArena.Library.Runs
import StreamArena.Library.AsciiText

/-! The quota of the torrent cache (src/local_torrent.rs): a resolve measures the cache,
evicts what it may, measures again and is admitted. Resolves of different info hashes run
side by side, each under the lock of its own hash. -/
namespace StreamArena.LocalTorrent.CacheQuota
open AsciiText Runs

structure CacheDirEntry where
  name : Text
  size : Nat
  modifiedMs : Int
  deriving DecidableEq

def localTorrentRecentRetentionMs : Int := 30 * 24 * 60 * 60 * 1000

/-- Where a resolve is: before a room check, within one, or past it. -/
inductive Phase where
  | idle
  | resolving
  | measuredKeep (required keep : Nat)
  | maintaining (required : Nat)
  | measuredKeepAgain (required keep : Nat)
  | listing (required target : Nat) (active : Finset Text)
  | scanning (required target total : Nat) (staleCutoffMs : Int) (active : Finset Text)
      (entries retained : List CacheDirEntry)
  | evicting (required target total : Nat) (active : Finset Text) (retained : List CacheDirEntry)
  | pruned (required : Nat)
  | measuredUsed (required used : Nat)
  | admitted (required : Nat)

/-- What a prune under way has listed as in use. -/
def Phase.active : Phase → Option (Finset Text)
  | .listing _ _ active | .scanning _ _ _ _ active _ _ | .evicting _ _ _ active _ => some active
  | _ => none

/-- The cache directory with the engine's torrents. `reserved` is what an admitted torrent
has not yet on disk; `managed` are the torrents of the session and of the handle map. -/
structure Cache where
  names : Finset Text
  disk : Text → Nat
  reserved : Text → Nat
  managed : Finset Text
  streams : Text → Nat
  cachedStreams : Text → Nat
  phase : Text → Phase
  /-- Whether the resolve in flight has added its handle. -/
  newlyAdded : Text → Bool

inductive Event where
  | resolve (hash : Text)
  | measureKeep (hash : Text) (required : Nat)
  | measureUsed (hash : Text) (existing : Nat)
  | measureKeepAgain (hash : Text)
  | snapshot (hash : Text)
  | list (hash : Text) (listing : List Text) (modifiedMs : Text → Int) (nowMs : Int)
  | evict (hash : Text) (removes : Bool)
  | measureUsedAgain (hash : Text)
  | reserve (hash : Text) (existing : Nat)
  | add (hash : Text)
  | allocate (hash : Text)
  | finish (hash : Text) (body : Bool)
  | fail (hash : Text) (keepsPromise : Bool)
  | dropBody (hash : Text)
  | openCached (hash : Text)
  | dropCached (hash : Text)
  | retire (hash : Text)
  | note (hash : Text) (bytes : Nat)

namespace Cache

def used (s : Cache) : Nat := ∑ name ∈ s.names, s.disk name

/-- The bytes on disk and those promised to admitted torrents. -/
def total (s : Cache) : Nat := ∑ name ∈ s.names, (s.disk name + s.reserved name)

def become (s : Cache) (hash : Text) (phase : Phase) : Cache :=
  { s with phase := Function.update s.phase hash phase }

/-- A resolve whose file of some size fits in is promised what it has not on disk. -/
def reserve (s : Cache) (hash : Text) (required existing : Nat) : Cache :=
  { s.become hash (.admitted required) with
    reserved := Function.update s.reserved hash (required - existing) }

def removeDir (s : Cache) (name : Text) : Cache := { s with disk := Function.update s.disk name 0 }

/-- A resolve ends with an error, and with it the handle it has added. A handle that was
there before may go on with the file that was selected. -/
def fail (s : Cache) (hash : Text) (keepsPromise : Bool) : Cache :=
  { s.become hash .idle with
    reserved := Function.update s.reserved hash
      (if s.newlyAdded hash || !keepsPromise then 0 else s.reserved hash)
    managed := if s.newlyAdded hash then s.managed.erase hash else s.managed
    newlyAdded := Function.update s.newlyAdded hash false }

/-- The next directory that a prune looks at: stale ones go first, then the oldest ones
until there is room; those in use stay. -/
def evict (s : Cache) (hash : Text) (removes : Bool) : Cache :=
  match s.phase hash with
  | .scanning required target total cutoff active (entry :: entries) retained =>
    if entry.modifiedMs ≤ cutoff ∧ entry.name ∉ active then
      if removes then
        (s.removeDir entry.name).become hash
          (.scanning required target (total - entry.size) cutoff active entries retained)
      else s.become hash (.scanning required target total cutoff active entries retained)
    else s.become hash (.scanning required target total cutoff active entries (retained ++ [entry]))
  | .scanning required target total _ active [] retained =>
    if total ≤ target then s.become hash (.pruned required)
    else
      s.become hash (.evicting required target total active
        (retained.mergeSort fun a b => a.modifiedMs ≤ b.modifiedMs))
  | .evicting required target total active (entry :: retained) =>
    if total ≤ target then s.become hash (.pruned required)
    else if entry.name ∈ active then s.become hash (.evicting required target total active retained)
    else if removes then
      (s.removeDir entry.name).become hash (.evicting required target (total - entry.size) active retained)
    else s.become hash (.evicting required target total active retained)
  | .evicting required _ _ _ [] => s.become hash (.pruned required)
  | _ => s

/-- One step under a quota. -/
def step (maxBytes : Nat) (s : Cache) : Event → Cache
  | .resolve hash =>
    match s.phase hash with
    | .idle => { s.become hash .resolving with names := insert hash s.names }
    | _ => s
  | .measureKeep hash required =>
    match s.phase hash with
    | .resolving =>
      if s.reserved hash ≠ 0 then s
      else if required > maxBytes then s.fail hash false
      else s.become hash (.measuredKeep required (s.disk hash))
    | _ => s
  | .measureUsed hash existing =>
    match s.phase hash with
    | .measuredKeep required keep =>
      if s.used - keep + required ≤ maxBytes then
        if existing ≤ s.disk hash ∧ existing ≤ required then s.reserve hash required existing else s
      else s.become hash (.maintaining required)
    | _ => s
  | .measureKeepAgain hash =>
    match s.phase hash with
    | .maintaining required => s.become hash (.measuredKeepAgain required (s.disk hash))
    | _ => s
  | .snapshot hash =>
    match s.phase hash with
    | .measuredKeepAgain required keep =>
      s.become hash (.listing required (maxBytes - (required - keep)) (insert hash s.managed))
    | _ => s
  | .list hash listing modifiedMs nowMs =>
    match s.phase hash with
    | .listing required target active =>
      let entries := (listing.filter fun name => decide (name ∈ s.names)).map fun name =>
        (⟨name, s.disk name, modifiedMs name⟩ : CacheDirEntry)
      s.become hash (.scanning required target (entries.map CacheDirEntry.size).sum
        (nowMs - localTorrentRecentRetentionMs) active entries [])
    | _ => s
  | .evict hash removes => s.evict hash removes
  | .measureUsedAgain hash =>
    match s.phase hash with
    | .pruned required => s.become hash (.measuredUsed required s.used)
    | _ => s
  | .reserve hash existing =>
    match s.phase hash with
    | .measuredUsed required used =>
      if used - s.disk hash + required > maxBytes then s.fail hash false
      else if existing ≤ s.disk hash ∧ existing ≤ required then s.reserve hash required existing
      else s
    | _ => s
  | .add hash =>
    match s.phase hash with
    | .admitted _ =>
      if hash ∈ s.managed then s
      else
        { s.become hash .resolving with
          managed := insert hash s.managed
          newlyAdded := Function.update s.newlyAdded hash true }
    | _ => s
  | .allocate hash =>
    { s with
      disk := Function.update s.disk hash (s.disk hash + s.reserved hash)
      reserved := Function.update s.reserved hash 0 }
  | .finish hash body =>
    match s.phase hash with
    | .admitted _ =>
      if s.reserved hash = 0 ∧ hash ∈ s.managed then
        { s.become hash .idle with
          streams := Function.update s.streams hash (s.streams hash + body.toNat)
          newlyAdded := Function.update s.newlyAdded hash false }
      else s
    | _ => s
  | .fail hash keepsPromise =>
    match s.phase hash with
    | .idle => s
    | _ => s.fail hash keepsPromise
  | .dropBody hash => { s with streams := Function.update s.streams hash (s.streams hash - 1) }
  | .openCached hash =>
    { s with
      names := insert hash s.names
      cachedStreams := Function.update s.cachedStreams hash (s.cachedStreams hash + 1) }
  | .dropCached hash =>
    { s with cachedStreams := Function.update s.cachedStreams hash (s.cachedStreams hash - 1) }
  | .retire hash =>
    match s.phase hash with
    | .idle => if s.streams hash = 0 then { s with managed := s.managed.erase hash } else s
    | _ => s
  | .note hash bytes =>
    { s with
      names := insert hash s.names
      disk := Function.update s.disk hash (s.disk hash + bytes) }

/-- An admission goes by what is there: the files of the other directories have not grown
since they were measured, no other torrent has bytes still to come, and what was taken to be
the selected file is. Nothing else fills the cache up. -/
def Measured (maxBytes : Nat) (s : Cache) : Event → Prop
  | .measureUsed hash existing => ∀ required keep, s.phase hash = .measuredKeep required keep →
      s.used - keep + required ≤ maxBytes →
        keep ≤ existing ∧ ∀ other, other ≠ hash → s.reserved other = 0
  | .reserve hash existing => ∀ required used, s.phase hash = .measuredUsed required used →
      used - s.disk hash + required ≤ maxBytes →
        s.used ≤ used ∧ s.disk hash ≤ existing ∧ ∀ other, other ≠ hash → s.reserved other = 0
  | .note _ bytes => s.total + bytes ≤ maxBytes
  | _ => True

/-- What comes into use while a prune is under way is on its list, and what is streamed
straight from its file when the list is made is on it as well. -/
def Listed (s : Cache) : Event → Prop
  | .add hash | .openCached hash =>
    ∀ other active, (s.phase other).active = some active → hash ∈ active
  | .snapshot hash => ∀ name, 0 < s.cachedStreams name → name ∈ insert hash s.managed
  | _ => True

/-- A directory that a prune step removes is not the one it makes room for, nor one of a
managed torrent, nor streamed from. -/
def Spares (s : Cache) : Event → Prop
  | .evict hash removes => ∀ dir, (s.evict hash removes).disk dir ≠ s.disk dir →
      dir ≠ hash ∧ dir ∉ s.managed ∧ s.streams dir = 0 ∧ s.cachedStreams dir = 0
  | _ => True

structure Within (maxBytes : Nat) (s : Cache) : Prop where
  total : s.total ≤ maxBytes
  absent : ∀ name, name ∉ s.names → s.disk name = 0 ∧ s.reserved name = 0
  named : ∀ hash, s.phase hash ≠ .idle → hash ∈ s.names

/-- What a prune may remove: nothing it has listed as in use, which everything in use is. -/
structure Spared (s : Cache) (hash : Text) (active : Finset Text) : Prop where
  keeps : hash ∈ active
  managed : ∀ name, name ∈ s.managed → name ∈ active
  cached : ∀ name, 0 < s.cachedStreams name → name ∈ active

structure Sparing (s : Cache) : Prop where
  streams : ∀ name, 0 < s.streams name → name ∈ s.managed ∧ s.newlyAdded name = false
  spared : ∀ hash active, (s.phase hash).active = some active → s.Spared hash active

variable {maxBytes : Nat} {s : Cache} {hash : Text}

@[simp] theorem become_phase (phase : Phase) : (s.become hash phase).phase hash = phase :=
  Function.update_self ..

theorem become_phase_of_ne {other : Text} (h : other ≠ hash) (phase : Phase) :
    (s.become hash phase).phase other = s.phase other := Function.update_of_ne h ..

/-- A sum over the names with one of them apart. -/
theorem sum_eq {f : Text → Nat} (h : hash ∈ s.names) :
    ∑ name ∈ s.names, f name = f hash + ∑ name ∈ s.names.erase hash, f name :=
  (Finset.add_sum_erase s.names f h).symm

/-- A name that is new to the cache weighs nothing. -/
theorem sum_insert {f : Text → Nat} (h : hash ∉ s.names → f hash = 0) :
    ∑ name ∈ insert hash s.names, f name = ∑ name ∈ s.names, f name := by
  by_cases hmem : hash ∈ s.names
  · rw [Finset.insert_eq_of_mem hmem]
  · rw [Finset.sum_insert hmem, h hmem, Nat.zero_add]

@[simp] theorem reserved_reserve (required existing : Nat) :
    (s.reserve hash required existing).reserved hash = required - existing := Function.update_self ..

/-- What an admission comes to, with no other torrent that has bytes still to come. -/
theorem total_reserve (hname : hash ∈ s.names) (hothers : ∀ other, other ≠ hash → s.reserved other = 0)
    {required existing : Nat} : (s.reserve hash required existing).total = s.used + (required - existing) := by
  have hrest : ∑ name ∈ s.names.erase hash, (s.disk name +
      Function.update s.reserved hash (required - existing) name) =
      ∑ name ∈ s.names.erase hash, s.disk name := by
    refine Finset.sum_congr rfl fun name hmem => ?_
    have hne := Finset.ne_of_mem_erase hmem
    rw [Function.update_of_ne hne, hothers name hne, Nat.add_zero]
  have hused : s.used = s.disk hash + ∑ name ∈ s.names.erase hash, s.disk name := sum_eq hname
  have htotal : (s.reserve hash required existing).total =
      s.disk hash + (required - existing) + ∑ name ∈ s.names.erase hash, s.disk name := by
    rw [← hrest]
    refine (sum_eq (s := s) hname).trans ?_
    rw [reserved_reserve]
    rfl
  omega

theorem total_mono {t : Cache} (hnames : t.names = s.names)
    (hle : ∀ name, t.disk name + t.reserved name ≤ s.disk name + s.reserved name) :
    t.total ≤ s.total := by
  unfold total
  rw [hnames]
  exact Finset.sum_le_sum fun name _ => hle name

theorem disk_removeDir_le (dir name : Text) : (s.removeDir dir).disk name ≤ s.disk name := by
  by_cases hn : name = dir
  · subst hn
    exact (le_of_eq (Function.update_self ..)).trans (Nat.zero_le _)
  · exact le_of_eq (Function.update_of_ne hn ..)

namespace Within

/-- A step of a resolve that has its directory, with no more on disk or promised. -/
theorem become (h : s.Within maxBytes) {t : Cache} (hnames : t.names = s.names)
    (hle : ∀ name, t.disk name ≤ s.disk name ∧ t.reserved name ≤ s.reserved name)
    (hphase : t.phase = s.phase) {phase : Phase} (hname : phase ≠ .idle → hash ∈ s.names) :
    (t.become hash phase).Within maxBytes where
  total := by
    refine le_trans (total_mono (s := s) hnames fun name => ?_) h.total
    exact Nat.add_le_add (hle name).1 (hle name).2
  absent name hmem := by
    have hold := h.absent name (hnames ▸ hmem)
    have hnow := hle name
    exact ⟨Nat.le_zero.mp (hold.1 ▸ hnow.1), Nat.le_zero.mp (hold.2 ▸ hnow.2)⟩
  named other hother := by
    have hmem : other ∈ s.names := by
      by_cases he : other = hash
      · subst he
        rw [become_phase] at hother
        exact hname hother
      · rw [become_phase_of_ne he, hphase] at hother
        exact h.named other hother
    exact hnames ▸ hmem

/-- The same with nothing else changed. -/
theorem goesOn (h : s.Within maxBytes) {phase next : Phase} (hphase : s.phase hash = phase)
    (hidle : phase ≠ .idle) : (s.become hash next).Within maxBytes :=
  h.become rfl (fun _ => ⟨le_refl _, le_refl _⟩) rfl fun _ => h.named hash (hphase ▸ hidle)

theorem removes (h : s.Within maxBytes) {phase next : Phase} (hphase : s.phase hash = phase)
    (hidle : phase ≠ .idle) (dir : Text) : ((s.removeDir dir).become hash next).Within maxBytes :=
  h.become (t := s.removeDir dir) rfl (fun name => ⟨disk_removeDir_le dir name, le_refl _⟩) rfl
    fun _ => h.named hash (hphase ▸ hidle)

theorem evict (h : s.Within maxBytes) (hash : Text) (removes : Bool) :
    (s.evict hash removes).Within maxBytes := by
  unfold Cache.evict
  split
  · next hphase =>
    split
    · split
      · exact h.removes hphase Phase.noConfusion _
      · exact h.goesOn hphase Phase.noConfusion
    · exact h.goesOn hphase Phase.noConfusion
  · next hphase => split <;> exact h.goesOn hphase Phase.noConfusion
  · next hphase =>
    split
    · exact h.goesOn hphase Phase.noConfusion
    · split
      · exact h.goesOn hphase Phase.noConfusion
      · split
        · exact h.removes hphase Phase.noConfusion _
        · exact h.goesOn hphase Phase.noConfusion
  · next hphase => exact h.goesOn hphase Phase.noConfusion
  · exact h

theorem reserve (h : s.Within maxBytes) {phase : Phase} (hphase : s.phase hash = phase)
    (hidle : phase ≠ .idle) (hothers : ∀ other, other ≠ hash → s.reserved other = 0)
    {required existing : Nat} (hroom : s.used + (required - existing) ≤ maxBytes) :
    (s.reserve hash required existing).Within maxBytes := by
  have hname := h.named hash (hphase ▸ hidle)
  have hgoes : (s.become hash (.admitted required)).Within maxBytes := h.goesOn hphase hidle
  refine ⟨?_, fun name hmem => ?_, hgoes.named⟩
  · rw [total_reserve hname hothers]
    exact hroom
  · have hne : name ≠ hash := fun he => hmem (he ▸ hname)
    have hold := h.absent name hmem
    exact ⟨hold.1, (Function.update_of_ne hne ..).trans hold.2⟩

/-- An end with an error, which takes back what was promised or leaves it promised. -/
theorem fail (h : s.Within maxBytes) (hash : Text) (keepsPromise : Bool) :
    (s.fail hash keepsPromise).Within maxBytes := by
  have hle (name : Text) : Function.update s.reserved hash
      (if s.newlyAdded hash || !keepsPromise then 0 else s.reserved hash) name ≤ s.reserved name := by
    by_cases hn : name = hash
    · subst hn
      rw [Function.update_self]
      split
      · exact Nat.zero_le _
      · exact le_refl _
    · rw [Function.update_of_ne hn]
  let t : Cache := { s with
    reserved := Function.update s.reserved hash
      (if s.newlyAdded hash || !keepsPromise then 0 else s.reserved hash) }
  have hidle : (t.become hash .idle).Within maxBytes :=
    h.become (t := t) rfl (fun name => ⟨le_refl _, hle name⟩) rfl fun hne => absurd rfl hne
  exact ⟨hidle.total, hidle.absent, hidle.named⟩

/-- The directory of a hash is made, empty, if it is not there. -/
theorem insertName (h : s.Within maxBytes) (hash : Text) :
    Cache.Within maxBytes { s with names := insert hash s.names } where
  total := by
    refine le_trans (le_of_eq ?_) h.total
    refine sum_insert (f := fun name => s.disk name + s.reserved name) fun hname => ?_
    have habsent := h.absent hash hname
    omega
  absent name hname := h.absent name fun hmem => hname (Finset.mem_insert_of_mem hmem)
  named other hother := Finset.mem_insert_of_mem (h.named other hother)

/-- The engine makes the file that was selected, at its full length. -/
theorem allocate (h : s.Within maxBytes) (hash : Text) :
    (s.step maxBytes (.allocate hash)).Within maxBytes where
  total := by
    refine le_trans (total_mono (s := s) rfl fun name => ?_) h.total
    rw [step]
    dsimp only
    by_cases hn : name = hash
    · subst hn
      rw [Function.update_self, Function.update_self, Nat.add_zero]
    · rw [Function.update_of_ne hn, Function.update_of_ne hn]
  absent name hmem := by
    have hold := h.absent name hmem
    rw [step]
    dsimp only
    by_cases hn : name = hash
    · subst hn
      rw [Function.update_self, Function.update_self, hold.1, hold.2]
      exact ⟨rfl, rfl⟩
    · rw [Function.update_of_ne hn, Function.update_of_ne hn]
      exact hold
  named := h.named

/-- Other files come into a directory. -/
theorem note (h : s.Within maxBytes) {bytes : Nat} (hroom : s.total + bytes ≤ maxBytes) :
    (s.step maxBytes (.note hash bytes)).Within maxBytes := by
  have hinsert := h.insertName hash
  have hmem : hash ∈ insert hash s.names := Finset.mem_insert_self ..
  have hrest : ∑ name ∈ (insert hash s.names).erase hash,
      (Function.update s.disk hash (s.disk hash + bytes) name + s.reserved name) =
      ∑ name ∈ (insert hash s.names).erase hash, (s.disk name + s.reserved name) := by
    refine Finset.sum_congr rfl fun name hname => ?_
    rw [Function.update_of_ne (Finset.ne_of_mem_erase hname)]
  have htotal : (s.step maxBytes (.note hash bytes)).total = s.disk hash + bytes + s.reserved hash +
      ∑ name ∈ (insert hash s.names).erase hash, (s.disk name + s.reserved name) := by
    rw [← hrest]
    refine (Finset.add_sum_erase _ _ hmem).symm.trans ?_
    rw [step]
    dsimp only
    rw [Function.update_self]
  have hold : s.total = s.disk hash + s.reserved hash +
      ∑ name ∈ (insert hash s.names).erase hash, (s.disk name + s.reserved name) := by
    refine Eq.trans ?_ (Finset.add_sum_erase _ (fun name => s.disk name + s.reserved name) hmem).symm
    refine (sum_insert (f := fun name => s.disk name + s.reserved name) fun hname => ?_).symm
    have habsent := h.absent hash hname
    omega
  refine ⟨by omega, fun name hname => ?_, hinsert.named⟩
  have hne : name ≠ hash := fun he => hname (he ▸ hmem)
  have habsent := hinsert.absent name hname
  exact ⟨(Function.update_of_ne hne ..).trans habsent.1, habsent.2⟩

theorem step (h : s.Within maxBytes) {event : Event} (hmeasured : s.Measured maxBytes event) :
    (s.step maxBytes event).Within maxBytes := by
  cases event with
  | resolve hash =>
    rw [Cache.step]
    split
    · exact (h.insertName hash).become (t := { s with names := insert hash s.names }) rfl
        (fun _ => ⟨le_refl _, le_refl _⟩) rfl fun _ => Finset.mem_insert_self ..
    · exact h
  | measureKeep hash required =>
    rw [Cache.step]
    split
    · next hphase =>
      split
      · exact h
      · split
        · exact h.fail hash false
        · exact h.goesOn hphase Phase.noConfusion
    · exact h
  | measureUsed hash existing =>
    rw [Cache.step]
    split
    · next hphase =>
      split
      · next hroom =>
        split
        · next hle =>
          have hmeasured := hmeasured _ _ hphase hroom
          refine h.reserve hphase Phase.noConfusion hmeasured.2 ?_
          have hkeep := hmeasured.1
          have hexisting := hle.2
          omega
        · exact h
      · exact h.goesOn hphase Phase.noConfusion
    · exact h
  | measureKeepAgain hash | snapshot hash | list hash listing modifiedMs nowMs | measureUsedAgain hash =>
    rw [Cache.step]
    split
    · next hphase => exact h.goesOn hphase Phase.noConfusion
    · exact h
  | evict hash removes => exact h.evict hash removes
  | reserve hash existing =>
    rw [Cache.step]
    split
    · next hphase =>
      split
      · exact h.fail hash false
      · next hroom =>
        split
        · next hle =>
          have hmeasured := hmeasured _ _ hphase (not_lt.mp hroom)
          refine h.reserve hphase Phase.noConfusion hmeasured.2.2 ?_
          have hused := hmeasured.1
          have hkeep := hmeasured.2.1
          have hexisting := hle.2
          omega
        · exact h
    · exact h
  | add hash =>
    rw [Cache.step]
    split
    · next hphase =>
      split
      · exact h
      · have hgoes : (s.become hash .resolving).Within maxBytes := h.goesOn hphase Phase.noConfusion
        exact ⟨hgoes.total, hgoes.absent, hgoes.named⟩
    · exact h
  | allocate hash => exact h.allocate hash
  | finish hash body =>
    rw [Cache.step]
    split
    · next hphase =>
      split
      · have hgoes : (s.become hash .idle).Within maxBytes := h.goesOn hphase Phase.noConfusion
        exact ⟨hgoes.total, hgoes.absent, hgoes.named⟩
      · exact h
    · exact h
  | fail hash keepsPromise =>
    rw [Cache.step]
    split
    · exact h
    · exact h.fail hash keepsPromise
  | dropBody hash | dropCached hash => exact ⟨h.total, h.absent, h.named⟩
  | openCached hash =>
    have hinsert := h.insertName hash
    exact ⟨hinsert.total, hinsert.absent, hinsert.named⟩
  | retire hash =>
    rw [Cache.step]
    split
    · split
      · exact ⟨h.total, h.absent, h.named⟩
      · exact h
    · exact h
  | note hash bytes => exact h.note hmeasured

end Within

namespace Sparing

/-- What is not in use any more may stay on a list, and every other list is as it was. -/
theorem become (h : s.Sparing) {t : Cache} (hphase : ∀ other, other ≠ hash → t.phase other = s.phase other)
    (hmanaged : t.managed ⊆ s.managed) (hcached : t.cachedStreams = s.cachedStreams)
    (hstreams : ∀ name, 0 < t.streams name → name ∈ t.managed ∧ t.newlyAdded name = false)
    (hspared : ∀ active, (t.phase hash).active = some active → s.Spared hash active) : t.Sparing where
  streams := hstreams
  spared other active hactive := by
    have hold : s.Spared other active := by
      by_cases he : other = hash
      · subst he
        exact hspared active hactive
      · rw [hphase other he] at hactive
        exact h.spared other active hactive
    exact ⟨hold.keeps, fun name hname => hold.managed name (hmanaged hname),
      fun name hname => hold.cached name (hcached ▸ hname)⟩

/-- A phase whose list, if it has one, is the list it had. -/
theorem goesOn (h : s.Sparing) {next : Phase}
    (hactive : ∀ active, next.active = some active → (s.phase hash).active = some active) :
    (s.become hash next).Sparing := by
  refine h.become (fun other hne => become_phase_of_ne hne next) (Finset.Subset.refl _) rfl h.streams
    fun active hnext => ?_
  rw [become_phase] at hnext
  exact h.spared hash active (hactive active hnext)

/-- A phase without a list. -/
theorem leaves (h : s.Sparing) {next : Phase} (hnone : next.active = none) :
    (s.become hash next).Sparing :=
  h.goesOn fun active hactive => by rw [hnone] at hactive; cases hactive

/-- What a prune removes leaves its list as it is. -/
theorem removes (h : s.Sparing) {next : Phase} (dir : Text)
    (hactive : ∀ active, next.active = some active → (s.phase hash).active = some active) :
    ((s.removeDir dir).become hash next).Sparing := by
  have hgoes := h.goesOn hactive
  exact ⟨hgoes.streams, fun other active hother =>
    ⟨(hgoes.spared other active hother).keeps, (hgoes.spared other active hother).managed,
      (hgoes.spared other active hother).cached⟩⟩

theorem evict (h : s.Sparing) (hash : Text) (removes : Bool) : (s.evict hash removes).Sparing := by
  unfold Cache.evict
  split
  · next hphase =>
    split
    · split
      · exact h.removes _ fun active hactive => by rw [hphase]; exact hactive
      · exact h.goesOn fun active hactive => by rw [hphase]; exact hactive
    · exact h.goesOn fun active hactive => by rw [hphase]; exact hactive
  · next hphase =>
    split
    · exact h.leaves rfl
    · exact h.goesOn fun active hactive => by rw [hphase]; exact hactive
  · next hphase =>
    split
    · exact h.leaves rfl
    · split
      · exact h.goesOn fun active hactive => by rw [hphase]; exact hactive
      · split
        · exact h.removes _ fun active hactive => by rw [hphase]; exact hactive
        · exact h.goesOn fun active hactive => by rw [hphase]; exact hactive
  · exact h.leaves rfl
  · exact h

theorem fail (h : s.Sparing) (hash : Text) (keepsPromise : Bool) : (s.fail hash keepsPromise).Sparing := by
  refine h.become (fun other hne => become_phase_of_ne hne .idle) ?_ rfl (fun name hname => ?_)
    fun active hactive => ?_
  · dsimp only [Cache.fail]
    split
    · exact Finset.erase_subset _ _
    · exact Finset.Subset.refl _
  · -- a torrent that is streamed was not added by the resolve that ends
    have hold := h.streams name hname
    dsimp only [Cache.fail]
    by_cases hn : name = hash
    · subst hn
      rw [hold.2, Function.update_self]
      exact ⟨hold.1, rfl⟩
    · rw [Function.update_of_ne hn]
      refine ⟨?_, hold.2⟩
      split
      · exact Finset.mem_erase_of_ne_of_mem hn hold.1
      · exact hold.1
  · have hidle : (s.fail hash keepsPromise).phase hash = .idle := become_phase _
    rw [hidle] at hactive
    cases hactive

theorem reserve (h : s.Sparing) (required existing : Nat) : (s.reserve hash required existing).Sparing := by
  have hleaves : (s.become hash (.admitted required)).Sparing := h.leaves rfl
  exact ⟨hleaves.streams, fun other active hother =>
    ⟨(hleaves.spared other active hother).keeps, (hleaves.spared other active hother).managed,
      (hleaves.spared other active hother).cached⟩⟩

/-- A list is made of what is managed, which all that is streamed is. -/
theorem snapshot (h : s.Sparing) (hlisted : ∀ name, 0 < s.cachedStreams name → name ∈ insert hash s.managed)
    (required target : Nat) : (s.become hash (.listing required target (insert hash s.managed))).Sparing := by
  refine h.become (fun other hne => become_phase_of_ne hne _) (Finset.Subset.refl _) rfl h.streams
    fun active hactive => ?_
  rw [become_phase] at hactive
  cases hactive
  exact ⟨Finset.mem_insert_self .., fun name hname => Finset.mem_insert_of_mem hname, hlisted⟩

theorem add (h : s.Sparing)
    (hlisted : ∀ other active, (s.phase other).active = some active → hash ∈ active) :
    (s.step maxBytes (.add hash)).Sparing := by
  rw [step]
  split
  · split
    · exact h
    · next hnew =>
      refine ⟨fun name hname => ?_, fun other active hactive => ?_⟩
      · have hold := h.streams name hname
        have hne : name ≠ hash := fun he => hnew (he ▸ hold.1)
        exact ⟨Finset.mem_insert_of_mem hold.1, (Function.update_of_ne hne ..).trans hold.2⟩
      · have hother : (s.phase other).active = some active := by
          by_cases he : other = hash
          · subst he
            have hphase : (s.become other .resolving).phase other = .resolving := become_phase _
            change ((s.become other .resolving).phase other).active = some active at hactive
            rw [hphase] at hactive
            cases hactive
          · rwa [← become_phase_of_ne he .resolving]
        have hold := h.spared other active hother
        refine ⟨hold.keeps, fun name hname => ?_, hold.cached⟩
        rcases Finset.mem_insert.mp hname with rfl | hname
        · exact hlisted other active hother
        · exact hold.managed name hname
  · exact h

theorem finish (h : s.Sparing) (hash : Text) (body : Bool) :
    (s.step maxBytes (.finish hash body)).Sparing := by
  rw [step]
  split
  · split
    · next hready =>
      refine h.become (fun other hne => become_phase_of_ne hne .idle) (Finset.Subset.refl _) rfl
        (fun name hname => ?_) fun active hactive => ?_
      · dsimp only at hname ⊢
        by_cases hn : name = hash
        · subst hn
          exact ⟨hready.2, Function.update_self ..⟩
        · rw [Function.update_of_ne hn] at hname ⊢
          exact h.streams name hname
      · change ((s.become hash .idle).phase hash).active = some active at hactive
        rw [become_phase] at hactive
        cases hactive
    · exact h
  · exact h

theorem step (h : s.Sparing) {event : Event} (hlisted : s.Listed event) :
    (s.step maxBytes event).Sparing := by
  cases event with
  | resolve hash =>
    rw [Cache.step]
    split
    · have hleaves : (s.become hash .resolving).Sparing := h.leaves rfl
      exact ⟨hleaves.streams, fun other active hother =>
        ⟨(hleaves.spared other active hother).keeps, (hleaves.spared other active hother).managed,
          (hleaves.spared other active hother).cached⟩⟩
    · exact h
  | measureKeep hash required =>
    rw [Cache.step]
    split
    · split
      · exact h
      · split
        · exact h.fail hash false
        · exact h.leaves rfl
    · exact h
  | measureUsed hash existing =>
    rw [Cache.step]
    split
    · split
      · split
        · exact h.reserve _ _
        · exact h
      · exact h.leaves rfl
    · exact h
  | measureKeepAgain hash | measureUsedAgain hash =>
    rw [Cache.step]
    split
    · exact h.leaves rfl
    · exact h
  | snapshot hash =>
    rw [Cache.step]
    split
    · exact h.snapshot hlisted _ _
    · exact h
  | list hash listing modifiedMs nowMs =>
    rw [Cache.step]
    split
    · next hphase => exact h.goesOn fun active hactive => by rw [hphase]; exact hactive
    · exact h
  | evict hash removes => exact h.evict hash removes
  | reserve hash existing =>
    rw [Cache.step]
    split
    · split
      · exact h.fail hash false
      · split
        · exact h.reserve _ _
        · exact h
    · exact h
  | add hash => exact h.add hlisted
  | allocate hash | note hash bytes => exact ⟨h.streams, fun other active hother =>
      ⟨(h.spared other active hother).keeps, (h.spared other active hother).managed,
        (h.spared other active hother).cached⟩⟩
  | finish hash body => exact h.finish hash body
  | fail hash keepsPromise =>
    rw [Cache.step]
    split
    · exact h
    · exact h.fail hash keepsPromise
  | dropBody hash =>
    refine ⟨fun name hname => ?_, fun other active hother =>
      ⟨(h.spared other active hother).keeps, (h.spared other active hother).managed,
        (h.spared other active hother).cached⟩⟩
    refine h.streams name (lt_of_lt_of_le hname ?_)
    dsimp only [Cache.step]
    by_cases hn : name = hash
    · subst hn
      rw [Function.update_self]
      exact Nat.sub_le ..
    · rw [Function.update_of_ne hn]
  | openCached hash =>
    refine ⟨h.streams, fun other active hother => ?_⟩
    have hold := h.spared other active hother
    refine ⟨hold.keeps, hold.managed, fun name hname => ?_⟩
    dsimp only [Cache.step] at hname
    by_cases hn : name = hash
    · subst hn
      exact hlisted other active hother
    · rw [Function.update_of_ne hn] at hname
      exact hold.cached name hname
  | dropCached hash =>
    refine ⟨h.streams, fun other active hother => ?_⟩
    have hold := h.spared other active hother
    refine ⟨hold.keeps, hold.managed, fun name hname => hold.cached name (lt_of_lt_of_le hname ?_)⟩
    dsimp only [Cache.step]
    by_cases hn : name = hash
    · subst hn
      rw [Function.update_self]
      exact Nat.sub_le ..
    · rw [Function.update_of_ne hn]
  | retire hash =>
    rw [Cache.step]
    split
    · split
      · next hzero =>
        refine h.become (fun _ _ => rfl) (Finset.erase_subset ..) rfl (fun name hname => ?_)
          fun active hactive => h.spared hash active hactive
        have hold := h.streams name hname
        have hne : name ≠ hash := fun he => absurd (he ▸ hname) (by rw [hzero]; exact Nat.lt_irrefl 0)
        exact ⟨Finset.mem_erase_of_ne_of_mem hne hold.1, hold.2⟩
      · exact h
    · exact h

theorem removed_spared (h : s.Sparing) {active : Finset Text}
    (hactive : (s.phase hash).active = some active) {name : Text} (hname : name ∉ active) {dir : Text}
    (hdir : (s.removeDir name).disk dir ≠ s.disk dir) :
    dir ≠ hash ∧ dir ∉ s.managed ∧ s.streams dir = 0 ∧ s.cachedStreams dir = 0 := by
  have heq : dir = name := by
    by_contra hne
    exact hdir (Function.update_of_ne hne ..)
  subst heq
  have hspared := h.spared hash active hactive
  have hmanaged : dir ∉ s.managed := fun hmem => hname (hspared.managed dir hmem)
  refine ⟨fun he => hname (he ▸ hspared.keeps), hmanaged, ?_, ?_⟩
  · exact Nat.eq_zero_of_not_pos fun hpos => hmanaged (h.streams dir hpos).1
  · exact Nat.eq_zero_of_not_pos fun hpos => hname (hspared.cached dir hpos)

theorem spares (h : s.Sparing) (event : Event) : s.Spares event := by
  cases event with
  | evict hash removes =>
    intro dir hdir
    unfold Cache.evict at hdir
    split at hdir
    · next hphase =>
      split at hdir
      · next hstale =>
        split at hdir
        · exact h.removed_spared (by rw [hphase]; rfl) hstale.2 hdir
        · exact absurd rfl hdir
      · exact absurd rfl hdir
    · split at hdir <;> exact absurd rfl hdir
    · next hphase =>
      split at hdir
      · exact absurd rfl hdir
      · split at hdir
        · exact absurd rfl hdir
        · next hfree =>
          split at hdir
          · exact h.removed_spared (by rw [hphase]; rfl) hfree hdir
          · exact absurd rfl hdir
    · exact absurd rfl hdir
    · exact absurd rfl hdir
  | _ => trivial

end Sparing

/-- The service starts on the directories it finds and the torrents of its last session. -/
def boot (names : Finset Text) (disk : Text → Nat) (managed : Finset Text) : Cache where
  names := names
  disk name := if name ∈ names then disk name else 0
  reserved _ := 0
  managed := managed
  streams _ := 0
  cachedStreams _ := 0
  phase _ := .idle
  newlyAdded _ := false

variable {names managed : Finset Text} {disk : Text → Nat}

theorem within_boot (hwithin : ∑ name ∈ names, disk name ≤ maxBytes) :
    (boot names disk managed).Within maxBytes where
  total := by
    refine le_trans (le_of_eq (Finset.sum_congr rfl fun name hname => ?_)) hwithin
    exact if_pos hname
  absent name hname := ⟨if_neg hname, rfl⟩
  named hash hhash := absurd rfl hhash

theorem sparing_boot : (boot names disk managed).Sparing where
  streams name hname := absurd hname (Nat.lt_irrefl 0)
  spared hash active hactive := by cases hactive

end Cache

/-- In every run of the resolves from a cache within its quota: where every admission goes
by what is there, the bytes on disk with those promised stay within it; and where what comes
into use is on the lists of the prunes under way, no prune removes what is in use. -/
theorem quota_and_use_kept {maxBytes : Nat} {names managed : Finset Text} {disk : Text → Nat}
    (hwithin : ∑ name ∈ names, disk name ≤ maxBytes) (events : List Event) :
    (Each (Cache.step maxBytes) (Cache.Measured maxBytes) (Cache.boot names disk managed) events →
      Throughout (Cache.step maxBytes) (fun s => s.total ≤ maxBytes) (Cache.boot names disk managed)
        events) ∧
    (Each (Cache.step maxBytes) Cache.Listed (Cache.boot names disk managed) events →
      Each (Cache.step maxBytes) Cache.Spares (Cache.boot names disk managed) events) := by
  constructor
  · intro hmeasured
    refine Throughout.imp (P := Cache.Within maxBytes) (fun s h => h.total) ?_
    exact throughout_of_each (fun s event hevent h => h.step hevent) (Cache.within_boot hwithin) hmeasured
  · intro hlisted
    exact each_of_each (P := Cache.Sparing) (fun s event hevent h => h.step hevent)
      (fun s event h => h.spares event) Cache.sparing_boot hlisted

/-- One torrent is admitted beside another; a prune for a larger one evicts that other. -/
theorem quota_and_use_kept_evicting :
    Throughout (Cache.step 10) (fun s => s.total ≤ 10) (Cache.boot {['a']} (fun _ => 6) ∅)
      [.resolve ['b'], .measureKeep ['b'] 3, .measureUsed ['b'] 0, .resolve ['c'], .measureKeep ['c'] 8] ∧
    Each (Cache.step 10) Cache.Spares (Cache.boot {['a']} (fun _ => 6) ∅)
      [.resolve ['b'], .measureKeep ['b'] 8, .measureUsed ['b'] 0, .measureKeepAgain ['b'],
        .snapshot ['b'], .list ['b'] [['a'], ['b']] (fun _ => 0) localTorrentRecentRetentionMs,
        .evict ['b'] true] := by
  constructor
  · refine (@quota_and_use_kept 10 {['a']} ∅ (fun _ => 6) (by decide) _).1 ?_
    refine ⟨trivial, trivial, fun required keep hphase _ => ?_, trivial, trivial, trivial⟩
    cases hphase
    exact ⟨le_refl _, fun _ _ => rfl⟩
  · refine (@quota_and_use_kept 10 {['a']} ∅ (fun _ => 6) (by decide) _).2 ?_
    exact ⟨trivial, trivial, trivial, trivial, fun name hname => absurd hname (Nat.lt_irrefl 0), trivial,
      trivial, trivial⟩

/-- Two room checks side by side see the same free bytes. -/
theorem quota_exceeded :
    ¬ ∀ events : List Event,
      Throughout (Cache.step 10) (fun s => s.total ≤ 10) (Cache.boot ∅ (fun _ => 0) ∅) events := by
  intro h
  have hlast := (h [.resolve ['a'], .resolve ['b'], .measureKeep ['a'] 6, .measureKeep ['b'] 6,
    .measureUsed ['a'] 0, .measureUsed ['b'] 0]).last
  revert hlast
  decide +kernel

end StreamArena.LocalTorrent.CacheQuota
