import Mathlib
import StreamArena.Library.AsciiText
import StreamArena.Library.Runs
import StreamArena.Library.TaskPool

/-! The My List store of the mobile app (src/mobile/src/store/mylist.ts), with the lists of the
accounts on the server and the requests in flight between them. -/
namespace StreamArena.Mobile
open AsciiText Runs TaskPool

structure MyListItem where
  itemIdentity : Text
  tmdbId : Text
  mediaType : Text
  title : Text
  year : Text
  thumb : Text
  addedAt : Int
  deriving DecidableEq

def identities (items : List MyListItem) : List Text := items.map MyListItem.itemIdentity

structure MyListState where
  scope : Option Text
  hydrated : Bool
  loading : Bool
  syncing : Bool
  dirty : Bool
  items : List MyListItem
  deriving DecidableEq

/-- A list read, with how often the list had been changed when it was sent, and the list that the
server has read for it. -/
structure ListRead where
  scope : Text
  mutations : Nat
  served : Option (List MyListItem)

/-- A write of a whole list, with the entries that the viewer had removed when it was sent. -/
structure ListPut where
  scope : Text
  items : List MyListItem
  removed : List Text
  applied : Bool

/-- What has happened: whether the current list has been read since the account became current,
how often each list was changed, which entries the viewer has removed and not seen since, whether a
change has not been sent, whether the last write that was answered succeeded, the entries that the server
lost without a removal, and whether an answer changed the list or the flags of another account. -/
structure MyListHistory where
  loaded : Bool
  mutations : Text → Nat
  removed : Text → List Text
  unsent : Text → Bool
  succeeded : Text → Bool
  lost : List MyListItem
  crossed : Bool

structure MyListWorld where
  store : MyListState
  server : Text → List MyListItem
  reads : Pool ListRead
  puts : Pool ListPut
  history : MyListHistory

inductive MyListEvent where
  | hydrate (rawScope : Option Text)
  | toggle (item : MyListItem) (now : Int)
  | remove (itemIdentity : Text)
  | serve (task : Nat)
  | readAnswered (task : Nat) (ok : Bool)
  | apply (task : Nat)
  | putAnswered (task : Nat) (ok : Bool)

namespace MyListWorld

def new (server : Text → List MyListItem) : MyListWorld where
  store := ⟨none, false, false, false, false, []⟩
  server
  reads := .empty
  puts := .empty
  history := ⟨false, fun _ => 0, fun _ => [], fun _ => false, fun _ => false, [], false⟩

def loadList (w : MyListWorld) (scope : Text) : MyListWorld :=
  { w with reads := w.reads.add ⟨scope, w.history.mutations scope, none⟩ }

def scheduleSync (w : MyListWorld) (scope : Text) : MyListWorld :=
  if w.store.syncing then
    { w with
      store := { w.store with dirty := true }
      history := { w.history with unsent := Function.update w.history.unsent scope true } }
  else
    { w with
      store := { w.store with syncing := true, dirty := false }
      puts := w.puts.add ⟨scope, w.store.items, w.history.removed scope, false⟩
      history := { w.history with unsent := Function.update w.history.unsent scope false } }

/-- `rawScope?.trim() || null`. -/
def normalizeScope (rawScope : Option Text) : Option Text := (rawScope.map trim).filter fun scope => !scope.isEmpty

def hydrate (w : MyListWorld) (rawScope : Option Text) : MyListWorld :=
  let scope := normalizeScope rawScope
  if w.store.scope = scope ∧ (w.store.hydrated || w.store.loading) then w
  else
    match scope with
    | none =>
      { w with
        store := ⟨none, true, false, false, false, []⟩
        history := { w.history with loaded := false } }
    | some scope =>
      ({ w with
        store := ⟨some scope, false, true, false, false, []⟩
        history := { w.history with loaded := false } } : MyListWorld).loadList scope

/-- A change of the list that the viewer made, with the entries that are removed after it. -/
def mutate (w : MyListWorld) (scope : Text) (items : List MyListItem) (removed : List Text) : MyListWorld :=
  ({ w with
    store := { w.store with items }
    history := { w.history with
      mutations := Function.update w.history.mutations scope (w.history.mutations scope + 1)
      removed := Function.update w.history.removed scope removed } } : MyListWorld).scheduleSync scope

def toggle (w : MyListWorld) (item : MyListItem) (now : Int) : MyListWorld :=
  match w.store.scope with
  | none => w
  | some scope =>
    let id := item.itemIdentity
    let removed := w.history.removed scope
    if w.store.items.any (·.itemIdentity == id) then
      w.mutate scope (w.store.items.filter (·.itemIdentity != id)) (id :: removed)
    else
      w.mutate scope ({ item with addedAt := if item.addedAt = 0 then now else item.addedAt } :: w.store.items)
        (removed.filter (· != id))

def remove (w : MyListWorld) (itemIdentity : Text) : MyListWorld :=
  match w.store.scope with
  | none => w
  | some scope =>
    if w.store.items.any (·.itemIdentity == itemIdentity) then
      w.mutate scope (w.store.items.filter (·.itemIdentity != itemIdentity))
        (itemIdentity :: w.history.removed scope)
    else w

/-- Notes whether the answer to a request of one account has changed what another one shows. -/
def answers (w : MyListWorld) (scope : Text) (after : MyListWorld) : MyListWorld :=
  { after with
    history := { after.history with
      crossed := after.history.crossed || decide (w.store.scope ≠ some scope ∧
        (after.store.items ≠ w.store.items ∨ after.store.syncing ≠ w.store.syncing ∨
          after.store.dirty ≠ w.store.dirty)) } }

def serve (w : MyListWorld) (task : Nat) : MyListWorld :=
  { w with reads := w.reads.change task fun read => some { read with served := some (w.server read.scope) } }

/-- The continuations of `loadList`. A read cannot succeed before it was served. -/
def readAnswered (w : MyListWorld) (task : Nat) (ok : Bool) : MyListWorld :=
  match w.reads.get task with
  | none => w
  | some read =>
    let ended := { w with reads := w.reads.drop task }
    match ok, read.served with
    | true, none => w
    | true, some entries =>
      w.answers read.scope
        (if w.store.scope ≠ some read.scope then ended
        else
          { ended with
            store := { w.store with items := entries, hydrated := true, loading := false }
            history := { w.history with
              loaded := true
              removed := Function.update w.history.removed read.scope
                ((w.history.removed read.scope).filter fun id => !(identities entries).contains id) } })
    | false, _ =>
      w.answers read.scope
        (if w.store.scope ≠ some read.scope then ended
        else { ended with store := { w.store with hydrated := true, loading := false } })

def apply (w : MyListWorld) (task : Nat) : MyListWorld :=
  match w.puts.get task with
  | none => w
  | some put =>
    if put.applied then w
    else
      { w with
        server := Function.update w.server put.scope put.items
        puts := w.puts.put task { put with applied := true }
        history := { w.history with
          lost := (w.server put.scope).filter (fun entry =>
            !(identities put.items).contains entry.itemIdentity && !put.removed.contains entry.itemIdentity) ++
              w.history.lost } }

/-- The continuations of `scheduleSync`. A write cannot succeed before it was applied. -/
def putAnswered (w : MyListWorld) (task : Nat) (ok : Bool) : MyListWorld :=
  match w.puts.get task with
  | none => w
  | some put =>
    if ok && !put.applied then w
    else
      let ended := { w with
        puts := w.puts.drop task
        history := { w.history with succeeded := Function.update w.history.succeeded put.scope ok } }
      w.answers put.scope
        (if w.store.scope ≠ some put.scope then
          { ended with store := { w.store with syncing := false, dirty := false } }
        else if ok then
          let idle := { ended with store := { w.store with syncing := false } }
          if w.store.dirty then idle.scheduleSync put.scope else idle
        else ({ ended with store := { w.store with syncing := false, dirty := false } } : MyListWorld).loadList put.scope)

def step (w : MyListWorld) : MyListEvent → MyListWorld
  | .hydrate rawScope => w.hydrate rawScope
  | .toggle item now => w.toggle item now
  | .remove itemIdentity => w.remove itemIdentity
  | .serve task => w.serve task
  | .readAnswered task ok => w.readAnswered task ok
  | .apply task => w.apply task
  | .putAnswered task ok => w.putAnswered task ok

/-- The requests of an account that are in flight. -/
def Reading (w : MyListWorld) (scope : Text) : Prop := w.reads.Has fun read => read.scope = scope

def Writing (w : MyListWorld) (scope : Text) : Prop := w.puts.Has fun put => put.scope = scope

/-- No entry is lost, and the server and the app agree. -/
structure Kept (w : MyListWorld) : Prop where
  lost : w.history.lost = []
  agree : ∀ scope, w.store.scope = some scope → ¬ w.Reading scope → ¬ w.Writing scope →
    w.history.succeeded scope = true → w.history.unsent scope = false → w.server scope = w.store.items
  single : ∀ i j put other, w.puts.get i = some put → w.puts.get j = some other → put.scope = other.scope → i = j
  sent : ∀ scope, w.history.unsent scope = true → w.Writing scope ∨ w.history.succeeded scope = false
  apart : w.history.crossed = false

/-- The viewer changes a list that has been read; an account becomes current when no write of it is
in flight; what is read came after the last change; a read that fails is not the first one of an
account whose last write has succeeded, or another one is under way; and a write of an account
that is no longer current is answered when no other one is in flight and nothing is left to send. -/
def Careful (w : MyListWorld) : MyListEvent → Prop
  | .hydrate rawScope => ∀ scope, normalizeScope rawScope = some scope → w.store.scope ≠ some scope → ¬ w.Writing scope
  | .toggle _ _ => w.store.scope.isSome → w.history.loaded = true
  | .remove itemIdentity => itemIdentity ∈ identities w.store.items → w.store.scope.isSome → w.history.loaded = true
  | .serve _ | .apply _ => True
  | .readAnswered task ok => ∀ read, w.reads.get task = some read → w.store.scope = some read.scope →
    if ok then read.mutations = w.history.mutations read.scope
    else w.history.loaded = true ∨ w.history.succeeded read.scope = false ∨ w.history.unsent read.scope = true ∨
      (w.reads.drop task).Has fun other => other.scope = read.scope
  | .putAnswered task ok => ∀ put, w.puts.get task = some put → w.store.scope ≠ some put.scope →
    w.store.syncing = false ∧ (ok = true → w.history.unsent put.scope = false)

/-- Every entry is among the items or was removed. -/
def Covers (entries items : List MyListItem) (removed : List Text) : Prop :=
  ∀ entry ∈ entries, entry.itemIdentity ∈ identities items ∨ entry.itemIdentity ∈ removed

theorem covers_self (items : List MyListItem) (removed : List Text) : Covers items items removed :=
  fun _ hentry => .inl (List.mem_map_of_mem hentry)

/-- What a write in flight has, and what it will replace. -/
def Replaces (server : List MyListItem) (put : ListPut) : Prop :=
  (put.applied = true → server = put.items) ∧ (put.applied = false → Covers server put.items put.removed)

/-- A read in flight that no change has overtaken finds the list as it is. -/
def Fresh (w : MyListWorld) (read : ListRead) : Prop :=
  read.mutations ≤ w.history.mutations read.scope ∧
    (read.mutations = w.history.mutations read.scope →
      ¬ w.Writing read.scope ∧ ∀ entries, read.served = some entries → entries = w.server read.scope)

structure Sound (w : MyListWorld) : Prop where
  lost : w.history.lost = []
  single : ∀ i j put other, w.puts.get i = some put → w.puts.get j = some other → put.scope = other.scope → i = j
  sent : ∀ scope, w.history.unsent scope = true → w.Writing scope ∨ w.history.succeeded scope = false
  apart : w.history.crossed = false
  shown : ∀ scope, w.store.scope = some scope → (w.store.hydrated || w.store.loading) = true
  idle : w.store.scope = none → w.store.syncing = false ∧ w.store.dirty = false
  syncing : ∀ scope, w.store.scope = some scope → (w.store.syncing = true ↔ w.Writing scope)
  dirty : ∀ scope, w.store.scope = some scope →
    (w.store.dirty = true ↔ w.store.syncing = true ∧ w.history.unsent scope = true)
  fresh : w.reads.All w.Fresh
  replaces : w.puts.All fun put => Replaces (w.server put.scope) put
  covered : ∀ scope, w.store.scope = some scope → w.history.loaded = true →
    Covers (w.server scope) w.store.items (w.history.removed scope)
  ahead : w.puts.All fun put => w.store.scope = some put.scope →
    w.history.loaded = true ∧ Covers put.items w.store.items (w.history.removed put.scope) ∧
      (w.history.unsent put.scope = false → put.items = w.store.items)
  agree : ∀ scope, w.store.scope = some scope → w.history.loaded = true → ¬ w.Writing scope →
    w.history.succeeded scope = true → w.history.unsent scope = false → w.server scope = w.store.items
  awaited : ∀ scope, w.store.scope = some scope → w.history.loaded = false → w.history.succeeded scope = true →
    w.history.unsent scope = false → w.Reading scope

theorem Sound.kept {w : MyListWorld} (h : w.Sound) : w.Kept where
  lost := h.lost
  agree scope hscope hreading hwriting hsucceeded hunsent := by
    cases hloaded : w.history.loaded with
    | true => exact h.agree scope hscope hloaded hwriting hsucceeded hunsent
    | false => exact absurd (h.awaited scope hscope hloaded hsucceeded hunsent) hreading
  single := h.single
  sent := h.sent
  apart := h.apart

theorem sound_new (server : Text → List MyListItem) : (new server).Sound where
  lost := rfl
  single _ _ _ _ hi := by cases hi
  sent _ h := by cases h
  apart := rfl
  shown _ h := by cases h
  idle _ := ⟨rfl, rfl⟩
  syncing _ h := by cases h
  dirty _ h := by cases h
  fresh := Pool.all_empty
  replaces := Pool.all_empty
  covered _ h := by cases h
  ahead := Pool.all_empty
  agree _ h := by cases h
  awaited _ h := by cases h

variable {w : MyListWorld} {scope : Text} {items : List MyListItem} {removed : List Text}

/-- A change by the viewer: what covered a list before still covers it. -/
theorem Sound.mutate (h : w.Sound) (hscope : w.store.scope = some scope) (hloaded : w.history.loaded = true)
    (hcovers : ∀ entries, Covers entries w.store.items (w.history.removed scope) → Covers entries items removed) :
    (w.mutate scope items removed).Sound := by
  have hstale (read : ListRead) (hfresh : w.Fresh read) :
      read.mutations ≤ Function.update w.history.mutations scope (w.history.mutations scope + 1) read.scope := by
    rw [Function.update_apply]
    split
    next heq =>
      have hle := hfresh.1
      rw [heq] at hle
      omega
    next => exact hfresh.1
  have hovertaken (read : ListRead) (hfresh : w.Fresh read)
      (heq : read.mutations = Function.update w.history.mutations scope (w.history.mutations scope + 1) read.scope) :
      read.scope ≠ scope ∧ read.mutations = w.history.mutations read.scope := by
    rw [Function.update_apply] at heq
    split at heq
    next hsame =>
      have hle := hfresh.1
      rw [hsame] at hle
      omega
    next hne => exact ⟨hne, heq⟩
  rw [MyListWorld.mutate, scheduleSync]
  dsimp only
  split
  next hsyncing =>
    have hwriting := (h.syncing scope hscope).mp hsyncing
    have hsame (other : Text) (hother : w.store.scope = some other) : other = scope :=
      Option.some.inj (hother.symm.trans hscope)
    exact {
      lost := h.lost
      single := h.single
      sent := fun other hunsent => by
        dsimp only at hunsent
        rw [Function.update_apply] at hunsent
        split at hunsent
        next heq => exact .inl (heq ▸ hwriting)
        next => exact h.sent other hunsent
      apart := h.apart
      shown := h.shown
      idle := fun hnone => by cases hscope.symm.trans hnone
      syncing := h.syncing
      dirty := fun other hother => by
        rw [hsame other hother]
        dsimp only
        rw [Function.update_self]
        exact ⟨fun _ => ⟨hsyncing, rfl⟩, fun _ => rfl⟩
      fresh := h.fresh.imp fun read hfresh => ⟨hstale read hfresh, fun heq => hfresh.2 (hovertaken read hfresh heq).2⟩
      replaces := h.replaces
      covered := fun other hother _ => by
        rw [hsame other hother]
        dsimp only
        rw [Function.update_self]
        exact hcovers _ (h.covered scope hscope hloaded)
      ahead := fun task put hput hcurrent => by
        have hput := h.ahead task put hput hcurrent
        rw [hsame _ hcurrent] at hput ⊢
        dsimp only
        rw [Function.update_self, Function.update_self]
        exact ⟨hloaded, hcovers _ hput.2.1, fun hunsent => by cases hunsent⟩
      agree := fun other hother _ hidle => by
        rw [hsame other hother] at hidle
        exact absurd hwriting hidle
      awaited := fun _ _ hnot => by cases hloaded.symm.trans hnot }
  next hidle =>
    have hwriting : ¬ w.Writing scope := fun hwriting => hidle ((h.syncing scope hscope).mpr hwriting)
    have hsame (other : Text) (hother : w.store.scope = some other) : other = scope :=
      Option.some.inj (hother.symm.trans hscope)
    have hcovered := hcovers _ (h.covered scope hscope hloaded)
    exact {
      lost := h.lost
      single := fun i j put other hi hj heq => by
        have hother (task : Nat) (put : ListPut) (hget : w.puts.get task = some put) : put.scope ≠ scope :=
          fun he => hwriting ⟨task, put, hget, he⟩
        obtain ⟨rfl, rfl⟩ | hi := Pool.get_add_eq_some.mp hi
        · obtain ⟨rfl, -⟩ | hj := Pool.get_add_eq_some.mp hj
          · rfl
          · exact absurd heq.symm (hother j other hj)
        · obtain ⟨-, rfl⟩ | hj := Pool.get_add_eq_some.mp hj
          · exact absurd heq (hother i put hi)
          · exact h.single i j put other hi hj heq
      sent := fun other hunsent => by
        dsimp only at hunsent
        rw [Function.update_apply] at hunsent
        split at hunsent
        next => cases hunsent
        next => exact (h.sent other hunsent).imp_left fun hw => Pool.has_add.mpr (.inr hw)
      apart := h.apart
      shown := h.shown
      idle := fun hnone => by cases hscope.symm.trans hnone
      syncing := fun other hother => by
        rw [hsame other hother]
        exact ⟨fun _ => Pool.has_add.mpr (.inl rfl), fun _ => rfl⟩
      dirty := fun other hother => by
        rw [hsame other hother]
        dsimp only
        rw [Function.update_self]
        simp
      fresh := h.fresh.imp fun read hfresh => by
        refine ⟨hstale read hfresh, fun heq => ?_⟩
        obtain ⟨hne, heq⟩ := hovertaken read hfresh heq
        obtain ⟨hnone, hserved⟩ := hfresh.2 heq
        refine ⟨fun hw => ?_, hserved⟩
        obtain hw | hw := Pool.has_add.mp hw
        · exact hne hw.symm
        · exact hnone hw
      replaces := h.replaces.add (by
        rw [Replaces]
        dsimp only
        rw [Function.update_self]
        exact ⟨fun hf => absurd hf Bool.false_ne_true, fun _ => hcovered⟩)
      covered := fun other hother _ => by
        rw [hsame other hother]
        dsimp only
        rw [Function.update_self]
        exact hcovered
      ahead := by
        refine Pool.All.add (fun task put hget hcurrent => ?_) fun _ => ?_
        · exact absurd ⟨task, put, hget, hsame _ hcurrent⟩ hwriting
        · exact ⟨hloaded, covers_self _ _, fun _ => rfl⟩
      agree := fun other hother _ hnone => by
        rw [hsame other hother, Writing] at hnone
        refine absurd ?_ hnone
        exact Pool.has_add.mpr (.inl rfl)
      awaited := fun _ _ hnot => by cases hloaded.symm.trans hnot }

theorem covers_filter {entries : List MyListItem} (id : Text) (h : Covers entries items removed) :
    Covers entries (items.filter (·.itemIdentity != id)) (id :: removed) := fun entry hentry => by
  by_cases heq : entry.itemIdentity = id
  · exact .inr (heq ▸ List.mem_cons_self)
  · refine (h entry hentry).imp (fun hmem => ?_) (List.mem_cons_of_mem _)
    obtain ⟨item, hitem, hid⟩ := List.mem_map.mp hmem
    rw [← hid] at heq ⊢
    exact List.mem_map_of_mem (List.mem_filter.mpr ⟨hitem, bne_iff_ne.mpr heq⟩)

theorem covers_cons {entries : List MyListItem} (item : MyListItem) (h : Covers entries items removed) :
    Covers entries (item :: items) (removed.filter (· != item.itemIdentity)) := fun entry hentry => by
  by_cases heq : entry.itemIdentity = item.itemIdentity
  · exact .inl (heq ▸ List.mem_cons_self)
  · exact (h entry hentry).imp (List.mem_cons_of_mem _) fun hmem => List.mem_filter.mpr ⟨hmem, bne_iff_ne.mpr heq⟩

theorem Sound.toggle (h : w.Sound) {item : MyListItem} {now : Int} (hcareful : w.Careful (.toggle item now)) :
    (w.toggle item now).Sound := by
  rw [MyListWorld.toggle]
  split
  next => exact h
  next scope hscope =>
    have hloaded := hcareful (by rw [hscope]; rfl)
    dsimp only
    split
    · exact h.mutate hscope hloaded fun _ => covers_filter _
    · exact h.mutate hscope hloaded fun _ => covers_cons { item with addedAt := _ }

theorem Sound.remove (h : w.Sound) {itemIdentity : Text} (hcareful : w.Careful (.remove itemIdentity)) :
    (w.remove itemIdentity).Sound := by
  rw [MyListWorld.remove]
  split
  next => exact h
  next scope hscope =>
    split
    next hany =>
      obtain ⟨item, hitem, hid⟩ := List.any_eq_true.mp hany
      have hmem : itemIdentity ∈ identities w.store.items := beq_iff_eq.mp hid ▸ List.mem_map_of_mem hitem
      have hloaded := hcareful hmem (by rw [hscope]; rfl)
      exact h.mutate hscope hloaded fun _ => covers_filter _
    next => exact h

theorem Sound.hydrate (h : w.Sound) {rawScope : Option Text} (hcareful : w.Careful (.hydrate rawScope)) :
    (w.hydrate rawScope).Sound := by
  rw [MyListWorld.hydrate]
  dsimp only
  split
  next => exact h
  next hother =>
    split
    next =>
      exact {
        h with
        shown := fun _ hscope => by cases hscope
        idle := fun _ => ⟨rfl, rfl⟩
        syncing := fun _ hscope => by cases hscope
        dirty := fun _ hscope => by cases hscope
        covered := fun _ hscope => by cases hscope
        ahead := h.ahead.imp fun _ _ hscope => by cases hscope
        agree := fun _ hscope => by cases hscope
        awaited := fun _ hscope => by cases hscope }
    next scope hnormal =>
      have hwriting : ¬ w.Writing scope := by
        by_cases hcurrent : w.store.scope = some scope
        · rw [hnormal] at hother
          exact absurd ⟨hcurrent, h.shown scope hcurrent⟩ hother
        · exact hcareful scope hnormal hcurrent
      have hsame (other : Text) (hscope : some scope = some other) : other = scope := (Option.some.inj hscope).symm
      exact {
        h with
        shown := fun _ _ => rfl
        idle := fun hnone => by cases hnone
        syncing := fun other hscope => by
          rw [hsame other hscope]
          exact ⟨fun hf => absurd hf Bool.false_ne_true, fun hw => absurd hw hwriting⟩
        dirty := fun other hscope => ⟨fun hf => absurd hf Bool.false_ne_true, fun hf => absurd hf.1 Bool.false_ne_true⟩
        fresh := h.fresh.add ⟨Nat.le_refl _, fun _ => ⟨hwriting, fun _ hf => by cases hf⟩⟩
        covered := fun _ _ hloaded => by cases hloaded
        ahead := fun task put hget hscope => absurd ⟨task, put, hget, hsame _ hscope⟩ hwriting
        agree := fun _ _ hloaded => by cases hloaded
        awaited := fun other hscope _ _ _ => by
          rw [hsame other hscope]
          exact Pool.has_add.mpr (.inl rfl) }

theorem Sound.serve (h : w.Sound) (task : Nat) : (w.serve task).Sound := {
  h with
  fresh := h.fresh.change fun read read' hget hread' => by
    rw [← Option.some.inj hread']
    refine ⟨(h.fresh task read hget).1, fun heq => ⟨((h.fresh task read hget).2 heq).1, fun entries hentries => ?_⟩⟩
    exact (Option.some.inj hentries).symm
  awaited := fun scope hscope hloaded hsucceeded hunsent =>
    (h.awaited scope hscope hloaded hsucceeded hunsent).change fun read _ hread => ⟨_, rfl, hread⟩ }

theorem Sound.apply (h : w.Sound) (task : Nat) : (w.apply task).Sound := by
  rw [MyListWorld.apply]
  split
  next => exact h
  next put hput =>
    split
    next => exact h
    next hunapplied =>
      have hunapplied : put.applied = false := Bool.not_eq_true _ ▸ hunapplied
      have hcovers := (h.replaces task put hput).2 hunapplied
      have hwriting (scope : Text) : (w.puts.put task { put with applied := true }).Has (fun put => put.scope = scope) ↔
          w.Writing scope := by
        constructor
        · exact Pool.Has.of_change fun a b ha hab hb => by
            rw [← Option.some.inj hab] at hb
            rw [hput, Option.some.injEq] at ha
            rwa [← ha]
        · intro hw
          refine hw.change fun a ha hscope => ⟨_, rfl, ?_⟩
          rw [hput, Option.some.injEq] at ha
          rw [← hscope, ← ha]
      have hsingle (other : ListPut) (n : Nat) (hother : w.puts.get n = some other) (hne : n ≠ task) :
          other.scope ≠ put.scope := fun heq => hne (h.single n task other put hother hput heq)
      exact {
        h with
        lost := by
          rw [List.append_eq_nil_iff]
          refine ⟨List.filter_eq_nil_iff.mpr fun entry hentry => ?_, h.lost⟩
          obtain hmem | hmem := hcovers entry hentry <;> simp [hmem]
        single := fun i j a b hi hj heq => by
          have hold (n : Nat) (c : ListPut)
              (hn : (w.puts.put task { put with applied := true }).get n = some c) :
              ∃ d, w.puts.get n = some d ∧ d.scope = c.scope := by
            obtain ⟨rfl, d, hd, hdc⟩ | ⟨-, hn⟩ := Pool.get_change_eq_some.mp hn
            · rw [← Option.some.inj hdc]
              rw [hput, Option.some.injEq] at hd
              exact ⟨put, hput, rfl⟩
            · exact ⟨c, hn, rfl⟩
          obtain ⟨a', ha, has⟩ := hold i a hi
          obtain ⟨b', hb, hbs⟩ := hold j b hj
          exact h.single i j a' b' ha hb (has.trans (heq.trans hbs.symm))
        sent := fun scope hunsent => (h.sent scope hunsent).imp_left (hwriting scope).mpr
        syncing := fun scope hscope => (h.syncing scope hscope).trans (hwriting scope).symm
        fresh := h.fresh.imp fun read hfresh => by
          refine ⟨hfresh.1, fun heq => ?_⟩
          obtain ⟨hnone, hserved⟩ := hfresh.2 heq
          refine ⟨fun hw => hnone ((hwriting _).mp hw), ?_⟩
          have hne : read.scope ≠ put.scope := fun he => hnone ⟨task, put, hput, he.symm⟩
          dsimp only
          rw [Function.update_of_ne hne]
          exact hserved
        replaces := fun n other hother => by
          dsimp only
          obtain ⟨-, a, -, hnew⟩ | ⟨hne, hold⟩ := Pool.get_change_eq_some.mp hother
          · rw [← Option.some.inj hnew, Function.update_self]
            exact ⟨fun _ => rfl, fun hf => absurd hf.symm Bool.false_ne_true⟩
          · rw [Function.update_of_ne (hsingle other n hold hne)]
            exact h.replaces n other hold
        covered := fun scope hscope hloaded => by
          dsimp only
          rw [Function.update_apply]
          split
          next heq => exact heq ▸ (h.ahead task put hput (heq ▸ hscope)).2.1
          next => exact h.covered scope hscope hloaded
        ahead := by
          refine Pool.All.put (fun n other hother hscope => ?_) fun hscope => ?_
          · exact h.ahead n other hother hscope
          · exact h.ahead task put hput hscope
        agree := fun scope hscope hloaded hnone hsucceeded hunsent => by
          have hnone : ¬ w.Writing scope := fun hw => hnone ((hwriting scope).mpr hw)
          have hne : scope ≠ put.scope := fun he => hnone ⟨task, put, hput, he.symm⟩
          dsimp only
          rw [Function.update_of_ne hne]
          exact h.agree scope hscope hloaded hnone hsucceeded hunsent }

/-- An answer that leaves the store of another account as it was. -/
theorem Sound.answers {after : MyListWorld} (h : after.Sound)
    (hsame : w.store.scope ≠ some scope →
      after.store.items = w.store.items ∧ after.store.syncing = w.store.syncing ∧ after.store.dirty = w.store.dirty) :
    (w.answers scope after).Sound := {
  h with
  apart := by
    rw [MyListWorld.answers]
    dsimp only
    rw [h.apart, Bool.false_or, decide_eq_false_iff_not]
    intro ⟨hscope, hdiffers⟩
    obtain ⟨hitems, hsyncing, hdirty⟩ := hsame hscope
    simp [hitems, hsyncing, hdirty] at hdiffers
  fresh := h.fresh.imp fun _ hfresh => hfresh }

theorem Sound.dropRead (h : w.Sound) {task : Nat} {read : ListRead} (hread : w.reads.get task = some read)
    (hlast : w.store.scope = some read.scope → w.history.loaded = true ∨ w.history.succeeded read.scope = false ∨
      w.history.unsent read.scope = true ∨ (w.reads.drop task).Has fun other => other.scope = read.scope) :
    ({ w with reads := w.reads.drop task } : MyListWorld).Sound := {
  h with
  fresh := h.fresh.drop
  awaited := fun scope hscope hloaded hsucceeded hunsent => by
    by_cases heq : read.scope = scope
    · subst heq
      obtain hl | hs | hu | hother := hlast hscope
      · cases hl.symm.trans hloaded
      · cases hs.symm.trans hsucceeded
      · cases hu.symm.trans hunsent
      · exact hother
    · refine (h.awaited scope hscope hloaded hsucceeded hunsent).drop fun other hother => ?_
      rw [hread, Option.some.injEq] at hother
      rw [← hother]
      exact heq }

theorem Sound.readAnswered (h : w.Sound) {task : Nat} {ok : Bool} (hcareful : w.Careful (.readAnswered task ok)) :
    (w.readAnswered task ok).Sound := by
  rw [MyListWorld.readAnswered]
  split
  next => exact h
  next read hread =>
    have hcareful := hcareful read hread
    split
    next => exact h
    next hserved _ =>
      refine Sound.answers ?_ fun hscope => by rw [if_pos hscope]; exact ⟨rfl, rfl, rfl⟩
      split
      next hother => exact h.dropRead hread fun hscope => absurd hscope hother
      next hscope =>
        have hscope := not_not.mp hscope
        have hsame (other : Text) (hother : w.store.scope = some other) : other = read.scope :=
          Option.some.inj (hother.symm.trans hscope)
        obtain ⟨hnone, hentries⟩ := (h.fresh task read hread).2 (hcareful hscope)
        have hentries := hentries _ hserved
        exact {
          h with
          shown := fun _ _ => rfl
          fresh := h.fresh.drop
          covered := fun other hother _ => by
            rw [hsame other hother, hentries]
            exact covers_self _ _
          ahead := fun n put hput hcurrent => absurd ⟨n, put, hput, hsame _ hcurrent⟩ hnone
          agree := fun other hother _ _ _ _ => by
            rw [hsame other hother]
            exact hentries.symm
          awaited := fun _ _ hnot => by cases hnot }
    next =>
      refine Sound.answers ?_ fun hscope => by rw [if_pos hscope]; exact ⟨rfl, rfl, rfl⟩
      split
      next hother => exact h.dropRead hread fun hscope => absurd hscope hother
      next =>
        have hdrop := h.dropRead hread hcareful
        exact { hdrop with shown := fun _ _ => rfl }

theorem Sound.clean (h : w.Sound) (hidle : w.store.syncing = false) : w.store.dirty = false := by
  cases hscope : w.store.scope with
  | none => exact (h.idle hscope).2
  | some scope =>
    rw [Bool.eq_false_iff]
    intro hdirty
    cases hidle.symm.trans ((h.dirty scope hscope).mp hdirty).1

/-- A write that is answered leaves no other one of its account in flight. -/
theorem Sound.writing_drop (h : w.Sound) {task : Nat} {put : ListPut} (hput : w.puts.get task = some put) (scope : Text) :
    ((w.puts.drop task).Has fun other => other.scope = scope) ↔ w.Writing scope ∧ scope ≠ put.scope := by
  constructor
  · intro ⟨n, other, hother, hscope⟩
    obtain ⟨hne, hold⟩ := Pool.get_drop_eq_some.mp hother
    refine ⟨⟨n, other, hold, hscope⟩, fun heq => hne ?_⟩
    exact h.single n task other put hold hput (hscope.trans heq)
  · intro ⟨hw, hne⟩
    refine hw.drop fun other hother hscope => hne ?_
    rw [hput, Option.some.injEq] at hother
    rw [← hscope, hother]

/-- After a write has been answered, what the other accounts have is as it was. -/
theorem Sound.sent_drop (h : w.Sound) {task : Nat} {put : ListPut} {ok : Bool} (hput : w.puts.get task = some put)
    (hlast : ok = true → w.history.unsent put.scope = false) (other : Text) (hunsent : w.history.unsent other = true) :
    ((w.puts.drop task).Has fun put => put.scope = other) ∨
      Function.update w.history.succeeded put.scope ok other = false := by
  rw [h.writing_drop hput, Function.update_apply]
  split
  next heq =>
    refine .inr ?_
    cases ok with
    | false => rfl
    | true => cases (hlast rfl).symm.trans (heq ▸ hunsent)
  next hne => exact (h.sent other hunsent).imp_left fun hw => ⟨hw, hne⟩

theorem Sound.single_drop (h : w.Sound) {task i j : Nat} {put other : ListPut} (hi : (w.puts.drop task).get i = some put)
    (hj : (w.puts.drop task).get j = some other) (heq : put.scope = other.scope) : i = j :=
  h.single i j put other (Pool.get_drop_eq_some.mp hi).2 (Pool.get_drop_eq_some.mp hj).2 heq

theorem Sound.putAnswered_other (h : w.Sound) {task : Nat} {put : ListPut} {ok : Bool}
    (hput : w.puts.get task = some put) (hother : w.store.scope ≠ some put.scope) (hidle : w.store.syncing = false)
    (hlast : ok = true → w.history.unsent put.scope = false) :
    ({ w with
      store := { w.store with syncing := false, dirty := false }
      puts := w.puts.drop task
      history := { w.history with succeeded := Function.update w.history.succeeded put.scope ok } } :
        MyListWorld).Sound := by
  have hne (scope : Text) (hscope : w.store.scope = some scope) : scope ≠ put.scope := fun heq =>
    hother (heq ▸ hscope)
  exact {
    h with
    single := fun _ _ _ _ => h.single_drop
    sent := h.sent_drop hput hlast
    idle := fun _ => ⟨rfl, rfl⟩
    syncing := fun scope hscope => by
      have hsyncing := h.syncing scope hscope
      rw [hidle] at hsyncing
      exact ⟨fun hf => absurd hf Bool.false_ne_true, fun hw => hsyncing.mpr hw.of_drop⟩
    dirty := fun scope hscope => ⟨fun hf => absurd hf Bool.false_ne_true, fun hf => absurd hf.1 Bool.false_ne_true⟩
    fresh := h.fresh.imp fun read hfresh =>
      ⟨hfresh.1, fun heq => ⟨fun hw => (hfresh.2 heq).1 hw.of_drop, (hfresh.2 heq).2⟩⟩
    replaces := h.replaces.drop
    ahead := h.ahead.drop
    agree := fun scope hscope hloaded hnone hsucceeded hunsent => by
      have hne := hne scope hscope
      have hnone : ¬ w.Writing scope := fun hw => hnone ((h.writing_drop hput scope).mpr ⟨hw, hne⟩)
      dsimp only at hsucceeded
      rw [Function.update_of_ne hne] at hsucceeded
      exact h.agree scope hscope hloaded hnone hsucceeded hunsent
    awaited := fun scope hscope hloaded hsucceeded hunsent => by
      dsimp only at hsucceeded
      rw [Function.update_of_ne (hne scope hscope)] at hsucceeded
      exact h.awaited scope hscope hloaded hsucceeded hunsent }

theorem Sound.putAnswered_clean (h : w.Sound) {task : Nat} {put : ListPut} (hput : w.puts.get task = some put)
    (hscope : w.store.scope = some put.scope) (happlied : put.applied = true) (hclean : w.store.dirty = false) :
    ({ w with
      store := { w.store with syncing := false }
      puts := w.puts.drop task
      history := { w.history with succeeded := Function.update w.history.succeeded put.scope true } } :
        MyListWorld).Sound := by
  have hsame (other : Text) (hother : w.store.scope = some other) : other = put.scope :=
    Option.some.inj (hother.symm.trans hscope)
  have hsyncing := (h.syncing put.scope hscope).mpr ⟨task, put, hput, rfl⟩
  have hunsent : w.history.unsent put.scope = false := by
    rw [Bool.eq_false_iff]
    intro hunsent
    have hdirty := (h.dirty put.scope hscope).mpr ⟨hsyncing, hunsent⟩
    cases hclean.symm.trans hdirty
  have hahead := h.ahead task put hput hscope
  exact {
    h with
    single := fun _ _ _ _ => h.single_drop
    sent := h.sent_drop hput fun _ => hunsent
    idle := fun hnone => by cases hscope.symm.trans hnone
    syncing := fun other hother => by
      have hw : ¬ (w.puts.drop task).Has fun put => put.scope = other := fun hw =>
        ((h.writing_drop hput other).mp hw).2 (hsame other hother)
      exact ⟨fun hf => absurd hf Bool.false_ne_true, fun hf => absurd hf hw⟩
    dirty := fun other hother => ⟨fun hf => absurd (hclean.symm.trans hf) Bool.false_ne_true, fun hf => absurd hf.1 Bool.false_ne_true⟩
    fresh := h.fresh.imp fun read hfresh =>
      ⟨hfresh.1, fun heq => ⟨fun hw => (hfresh.2 heq).1 hw.of_drop, (hfresh.2 heq).2⟩⟩
    replaces := h.replaces.drop
    ahead := h.ahead.drop
    agree := fun other hother _ _ _ _ => by
      rw [hsame other hother]
      exact ((h.replaces task put hput).1 happlied).trans (hahead.2.2 hunsent)
    awaited := fun _ _ hnot => by cases hahead.1.symm.trans hnot }

/-- The changes made meanwhile are sent. -/
theorem Sound.putAnswered_dirty (h : w.Sound) {task : Nat} {put : ListPut} (hput : w.puts.get task = some put)
    (hscope : w.store.scope = some put.scope) :
    ({ w with
      store := { w.store with syncing := true, dirty := false }
      puts := (w.puts.drop task).add ⟨put.scope, w.store.items, w.history.removed put.scope, false⟩
      history := { w.history with
        succeeded := Function.update w.history.succeeded put.scope true
        unsent := Function.update w.history.unsent put.scope false } } : MyListWorld).Sound := by
  have hsame (other : Text) (hother : w.store.scope = some other) : other = put.scope :=
    Option.some.inj (hother.symm.trans hscope)
  have hloaded := (h.ahead task put hput hscope).1
  have hapart (n : Nat) (other : ListPut) (hother : (w.puts.drop task).get n = some other) :
      other.scope ≠ put.scope := fun heq => ((h.writing_drop hput other.scope).mp ⟨n, other, hother, rfl⟩).2 heq
  exact {
    h with
    single := fun i j a b hi hj heq => by
      obtain ⟨rfl, rfl⟩ | hi := Pool.get_add_eq_some.mp hi
      · obtain ⟨rfl, -⟩ | hj := Pool.get_add_eq_some.mp hj
        · rfl
        · exact absurd heq.symm (hapart j b hj)
      · obtain ⟨-, rfl⟩ | hj := Pool.get_add_eq_some.mp hj
        · exact absurd heq (hapart i a hi)
        · exact h.single_drop hi hj heq
    sent := fun other hunsent => by
      dsimp only at hunsent ⊢
      rw [Function.update_apply] at hunsent ⊢
      split at hunsent
      next => cases hunsent
      next hne =>
        rw [if_neg hne]
        refine (h.sent other hunsent).imp_left fun hw => Pool.has_add.mpr (.inr ?_)
        exact (h.writing_drop hput other).mpr ⟨hw, hne⟩
    idle := fun hnone => by cases hscope.symm.trans hnone
    syncing := fun other hother => by
      rw [hsame other hother]
      exact ⟨fun _ => Pool.has_add.mpr (.inl rfl), fun _ => rfl⟩
    dirty := fun other hother => by
      rw [hsame other hother]
      dsimp only
      rw [Function.update_self]
      simp
    fresh := h.fresh.imp fun read hfresh => by
      refine ⟨hfresh.1, fun heq => ⟨fun hw => ?_, (hfresh.2 heq).2⟩⟩
      have hnone := (hfresh.2 heq).1
      obtain hw | hw := Pool.has_add.mp hw
      · exact hnone ⟨task, put, hput, hw⟩
      · exact hnone hw.of_drop
    replaces := h.replaces.drop.add ⟨fun hf => absurd hf Bool.false_ne_true, fun _ =>
      h.covered put.scope hscope hloaded⟩
    ahead := by
      refine Pool.All.add (fun n other hother hcurrent => ?_) fun _ => ?_
      · exact absurd (hsame _ hcurrent) (hapart n other hother)
      · exact ⟨hloaded, covers_self _ _, fun _ => rfl⟩
    agree := fun other hother _ hnone => by
      rw [hsame other hother, Writing] at hnone
      refine absurd ?_ hnone
      exact Pool.has_add.mpr (.inl rfl)
    awaited := fun _ _ hnot => by cases hloaded.symm.trans hnot }

/-- The list is read again after a write that failed. -/
theorem Sound.putAnswered_failed (h : w.Sound) {task : Nat} {put : ListPut} (hput : w.puts.get task = some put)
    (hscope : w.store.scope = some put.scope) :
    ({ w with
      store := { w.store with syncing := false, dirty := false }
      puts := w.puts.drop task
      reads := w.reads.add ⟨put.scope, w.history.mutations put.scope, none⟩
      history := { w.history with succeeded := Function.update w.history.succeeded put.scope false } } :
        MyListWorld).Sound := by
  have hsame (other : Text) (hother : w.store.scope = some other) : other = put.scope :=
    Option.some.inj (hother.symm.trans hscope)
  have hnone : ¬ (w.puts.drop task).Has fun other => other.scope = put.scope := fun hw =>
    ((h.writing_drop hput _).mp hw).2 rfl
  exact {
    h with
    single := fun _ _ _ _ => h.single_drop
    sent := h.sent_drop hput fun hf => absurd hf Bool.false_ne_true
    idle := fun _ => ⟨rfl, rfl⟩
    syncing := fun other hother => by
      rw [hsame other hother]
      exact ⟨fun hf => absurd hf Bool.false_ne_true, fun hf => absurd hf hnone⟩
    dirty := fun other hother => ⟨fun hf => absurd hf Bool.false_ne_true, fun hf => absurd hf.1 Bool.false_ne_true⟩
    fresh := by
      refine Pool.All.add (h.fresh.imp fun read hfresh => ?_) ⟨Nat.le_refl _, fun _ => ⟨hnone, fun _ hf => by cases hf⟩⟩
      exact ⟨hfresh.1, fun heq => ⟨fun hw => (hfresh.2 heq).1 hw.of_drop, (hfresh.2 heq).2⟩⟩
    replaces := h.replaces.drop
    ahead := h.ahead.drop
    agree := fun other hother _ _ hsucceeded => by
      rw [hsame other hother] at hsucceeded
      dsimp only at hsucceeded
      rw [Function.update_self] at hsucceeded
      cases hsucceeded
    awaited := fun other hother _ hsucceeded => by
      rw [hsame other hother] at hsucceeded
      dsimp only at hsucceeded
      rw [Function.update_self] at hsucceeded
      cases hsucceeded }

theorem Sound.putAnswered (h : w.Sound) {task : Nat} {ok : Bool} (hcareful : w.Careful (.putAnswered task ok)) :
    (w.putAnswered task ok).Sound := by
  rw [MyListWorld.putAnswered]
  split
  next => exact h
  next put hput =>
    split
    next => exact h
    next happlied =>
      have hcareful := hcareful put hput
      dsimp only
      refine Sound.answers ?_ fun hscope => ?_
      · split
        next hother =>
          obtain ⟨hidle, hlast⟩ := hcareful hother
          exact h.putAnswered_other hput hother hidle hlast
        next hscope =>
          have hscope := not_not.mp hscope
          split
          next hok =>
            subst hok
            have happlied : put.applied = true := by simpa using happlied
            split
            next => exact h.putAnswered_dirty hput hscope
            next hclean => exact h.putAnswered_clean hput hscope happlied (Bool.not_eq_true _ ▸ hclean)
          next hfailed =>
            have hfailed : ok = false := Bool.not_eq_true _ ▸ hfailed
            subst hfailed
            exact h.putAnswered_failed hput hscope
      · obtain ⟨hidle, -⟩ := hcareful hscope
        rw [if_pos hscope]
        exact ⟨rfl, hidle.symm, (h.clean hidle).symm⟩

theorem Sound.step {event : MyListEvent} (hcareful : w.Careful event) (h : w.Sound) : (w.step event).Sound := by
  cases event with
  | hydrate rawScope => exact h.hydrate hcareful
  | toggle item now => exact h.toggle hcareful
  | remove itemIdentity => exact h.remove hcareful
  | serve task => exact h.serve task
  | readAnswered task ok => exact h.readAnswered hcareful
  | apply task => exact h.apply task
  | putAnswered task ok => exact h.putAnswered hcareful

/-- Where every step is careful, no list loses an entry and none differs from what the server has. -/
theorem lists_kept (server : Text → List MyListItem) (events : List MyListEvent)
    (hevents : Each MyListWorld.step Careful (new server) events) :
    Throughout MyListWorld.step Kept (new server) events :=
  (throughout_of_each (fun _ _ hcareful hsound => Sound.step hcareful hsound) (sound_new server) hevents).imp
    fun _ hsound => hsound.kept

def savedItem (id : Char) : MyListItem := ⟨[id], [id], "movie".toList, [id], [], [], 1⟩

/-- A list of one entry gets a second one. -/
theorem lists_kept_toggled :
    Throughout MyListWorld.step Kept (new fun _ => [savedItem 'a'])
      [.hydrate (some ['u']), .serve 0, .readAnswered 0 true, .toggle (savedItem 'b') 2, .apply 0,
        .putAnswered 0 true] := by
  refine lists_kept _ _ ⟨fun _ _ _ => ?_, trivial, fun read hread _ => ?_, fun _ => rfl, trivial, fun put hput hother => ?_, trivial⟩
  · exact Pool.not_has_empty
  · cases hread
    rfl
  · cases hput
    exact absurd rfl hother

/-- The viewer saves a title before the list has been read, and the other entries are gone. -/
theorem unread_list_replaced :
    ¬ Throughout MyListWorld.step Kept (new fun _ => [savedItem 'a'])
      [.hydrate (some ['u']), .toggle (savedItem 'b') 2, .apply 0] := by
  intro h
  have hlost := h.last.lost
  revert hlost
  decide +kernel

end MyListWorld

end StreamArena.Mobile
