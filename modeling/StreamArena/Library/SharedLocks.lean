import Mathlib.Logic.Function.Basic
import StreamArena.Library.KeyedTable
import StreamArena.Library.Tally

/-! Locks and permits that clients share through a map, which forgets an entry once it is
idle: a client clones the entry of its key, waits, holds a permit, gives it back and lets
its reference go, and a prune looks at one entry at a time between any two of these. -/
namespace SharedLocks
open Counting KeyedTable
variable {κ ι : Type*}

inductive Stage where
  | waiting
  | holding
  | leaving
  deriving DecidableEq

/-- What a client refers to: the key it asked for and the lock it was given. -/
structure Reference (κ : Type*) where
  key : κ
  lock : Nat
  stage : Stage
  deriving DecidableEq

/-- The map's entries, the references to each lock with the map's own, the permits of each
that nobody has, and the clients' references. -/
structure State (κ ι : Type*) where
  entries : Table κ Nat
  fresh : Nat
  strong : Nat → Nat
  available : Nat → Nat
  reference : ι → Option (Reference κ)

def State.initial : State κ ι := ⟨.empty, 0, fun _ => 0, fun _ => 0, fun _ => none⟩

/-- The clients whose reference is of a kind. -/
def Clients (reference : ι → Option (Reference κ)) (kind : Reference κ → Prop) (i : ι) : Prop :=
  ∃ r, reference i = some r ∧ kind r

section update
variable [DecidableEq ι] {reference : ι → Option (Reference κ)} {kind : Reference κ → Prop}
  {i : ι} {next : Option (Reference κ)} {n : Nat}

theorem clients_update (j : ι) : Clients (Function.update reference i next) kind j ↔
    (j = i ∧ ∃ r, next = some r ∧ kind r) ∨ (j ≠ i ∧ Clients reference kind j) := by
  by_cases hj : j = i
  · rw [Clients, hj, Function.update_self]
    simp
  · rw [Clients, Function.update_of_ne hj]
    simp [hj, Clients]

theorem tally_gain (h : Tally (Clients reference kind) n) (hold : ¬ Clients reference kind i)
    (hnew : ∃ r, next = some r ∧ kind r) :
    Tally (Clients (Function.update reference i next) kind) (n + 1) := by
  refine h.add hold fun j => ?_
  rw [clients_update]
  by_cases hj : j = i <;> simp [hj, hnew]

theorem tally_lose (h : Tally (Clients reference kind) n) (hold : Clients reference kind i)
    (hnew : ∀ r, next = some r → ¬ kind r) :
    Tally (Clients (Function.update reference i next) kind) (n - 1) := by
  refine h.remove hold fun j => ?_
  rw [clients_update, or_iff_right fun hi => ?_]
  obtain ⟨-, r, hr, hkind⟩ := hi
  exact hnew r hr hkind

theorem tally_same (h : Tally (Clients reference kind) n)
    (hsame : Clients reference kind i ↔ ∃ r, next = some r ∧ kind r) :
    Tally (Clients (Function.update reference i next) kind) n := by
  refine h.congr fun j => ?_
  rw [clients_update]
  by_cases hj : j = i
  · simp [hj, hsame]
  · simp [hj]

end update

def Reference.To (lock : Nat) (r : Reference κ) : Prop := r.lock = lock

def Reference.Permit (lock : Nat) (r : Reference κ) : Prop := r.lock = lock ∧ r.stage = .holding

def Reference.Holds (key : κ) (r : Reference κ) : Prop := r.key = key ∧ r.stage = .holding

section clients
variable [DecidableEq ι]

/-- A waiting client takes a permit when there is one. -/
def State.take (s : State κ ι) (i : ι) : State κ ι :=
  match s.reference i with
  | some ⟨key, lock, .waiting⟩ =>
    if s.available lock = 0 then s
    else { s with
      available := Function.update s.available lock (s.available lock - 1)
      reference := Function.update s.reference i (some ⟨key, lock, .holding⟩) }
  | _ => s

/-- A client gives its permit back, before its reference. -/
def State.giveBack (s : State κ ι) (i : ι) : State κ ι :=
  match s.reference i with
  | some ⟨key, lock, .holding⟩ =>
    { s with
      available := Function.update s.available lock (s.available lock + 1)
      reference := Function.update s.reference i (some ⟨key, lock, .leaving⟩) }
  | _ => s

/-- A client without a permit lets its reference go: after it has given its permit back, or
because its wait is over. -/
def State.letGo (s : State κ ι) (i : ι) : State κ ι :=
  match s.reference i with
  | some ⟨_, lock, .waiting⟩ | some ⟨_, lock, .leaving⟩ =>
    { s with
      strong := Function.update s.strong lock (s.strong lock - 1)
      reference := Function.update s.reference i none }
  | _ => s

end clients

section keys
variable [DecidableEq κ]

/-- A client without a reference clones the entry of a key, which is made when there is none. -/
def State.ask [DecidableEq ι] (permits : Nat) (s : State κ ι) (i : ι) (key : κ) : State κ ι :=
  match s.reference i with
  | some _ => s
  | none =>
    match s.entries.get key with
    | some lock =>
      { s with
        strong := Function.update s.strong lock (s.strong lock + 1)
        reference := Function.update s.reference i (some ⟨key, lock, .waiting⟩) }
    | none =>
      { entries := s.entries.upsert key s.fresh id
        fresh := s.fresh + 1
        strong := Function.update s.strong s.fresh 2
        available := Function.update s.available s.fresh permits
        reference := Function.update s.reference i (some ⟨key, s.fresh, .waiting⟩) }

/-- A prune drops the entry of a key unless its permits and references keep it. -/
def State.retain (keep : Nat → Nat → Bool) (s : State κ ι) (key : κ) : State κ ι :=
  match s.entries.get key with
  | none => s
  | some lock =>
    if keep (s.available lock) (s.strong lock) then s
    else { s with
      entries := s.entries.deleteWhere fun key' _ => decide (key' = key)
      strong := Function.update s.strong lock (s.strong lock - 1) }

/-- The entries' counts are of the clients there are, and every reference is to an entry. -/
structure State.Sound (permits : Nat) (s : State κ ι) : Prop where
  current : ∀ i r, s.reference i = some r → s.entries.get r.key = some r.lock
  apart : ∀ key key' lock, s.entries.get key = some lock → s.entries.get key' = some lock → key = key'
  below : ∀ key lock, s.entries.get key = some lock → lock < s.fresh
  counted : ∀ key lock, s.entries.get key = some lock →
    ∃ n, Tally (Clients s.reference (Reference.To lock)) n ∧ s.strong lock = n + 1
  shared : ∀ key lock, s.entries.get key = some lock →
    ∃ n, Tally (Clients s.reference (Reference.Permit lock)) n ∧ s.available lock + n = permits

variable {permits : Nat} {s : State κ ι} {i : ι} {key : κ} {lock : Nat}

theorem State.sound_initial : (State.initial : State κ ι).Sound permits where
  current := fun _ _ h => absurd h.symm (Option.some_ne_none _)
  apart := fun _ _ _ h => absurd h.symm (Option.some_ne_none _)
  below := fun _ _ h => absurd h.symm (Option.some_ne_none _)
  counted := fun _ _ h => absurd h.symm (Option.some_ne_none _)
  shared := fun _ _ h => absurd h.symm (Option.some_ne_none _)

/-- At most so many clients hold a permit for one key. -/
theorem State.Sound.atMost (hs : s.Sound permits) (key : κ) :
    ∃ n ≤ permits, Tally (Clients s.reference (Reference.Holds key)) n := by
  cases hentry : s.entries.get key with
  | none =>
    refine ⟨0, Nat.zero_le _, Tally.of_none fun i ⟨r, hr, hkey, _⟩ => ?_⟩
    have hcurrent := hs.current i r hr
    rw [hkey, hentry] at hcurrent
    cases hcurrent
  | some lock =>
    obtain ⟨n, htally, hsum⟩ := hs.shared key lock hentry
    refine ⟨n, by omega, htally.congr fun i => exists_congr fun r => and_congr_right fun hr => ?_⟩
    have hcurrent := hs.current i r hr
    refine and_congr_left fun _ => ⟨fun hkey => ?_, fun hlock => ?_⟩
    · rw [hkey, hentry] at hcurrent
      exact (Option.some.inj hcurrent).symm
    · rw [hlock] at hcurrent
      exact hs.apart _ _ _ hcurrent hentry

/-- An entry that is dropped had no client. -/
theorem State.Sound.idle_of_retain {keep : Nat → Nat → Bool} (hkeep : ∀ available strong, 1 < strong → keep available strong = true)
    (hs : s.Sound permits) (hentry : s.entries.get key = some lock) (hdrop : keep (s.available lock) (s.strong lock) = false) (i : ι)
    (r : Reference κ) (hr : s.reference i = some r) : r.lock ≠ lock := by
  intro hlock
  obtain ⟨n, htally, hstrong⟩ := hs.counted key lock hentry
  have hpos := htally.pos ⟨r, hr, hlock⟩
  have htrue := hkeep (s.available lock) (s.strong lock) (by omega)
  rw [hdrop] at htrue
  cases htrue

theorem State.Sound.retain {keep : Nat → Nat → Bool} (hkeep : ∀ available strong, 1 < strong → keep available strong = true)
    (hs : s.Sound permits) (key : κ) : (s.retain keep key).Sound permits := by
  unfold State.retain
  split
  · exact hs
  · next lock hentry =>
    split
    · exact hs
    · next hdrop =>
      rw [Bool.not_eq_true] at hdrop
      have hidle := hs.idle_of_retain hkeep hentry hdrop
      have hget (key' : κ) (lock' : Nat)
          (h : (s.entries.deleteWhere fun key' _ => decide (key' = key)).get key' = some lock') :
          s.entries.get key' = some lock' ∧ lock' ≠ lock := by
        rw [get_deleteWhere, Option.filter_eq_some_iff] at h
        refine ⟨h.1, ?_⟩
        rintro rfl
        have hkey := hs.apart _ _ _ h.1 hentry
        simp [hkey] at h
      refine ⟨fun j r hr => ?_, fun key₁ key₂ lock' h₁ h₂ => hs.apart _ _ _ (hget _ _ h₁).1 (hget _ _ h₂).1,
        fun key' lock' h => hs.below _ _ (hget _ _ h).1, fun key' lock' h => ?_,
        fun key' lock' h => hs.shared _ _ (hget _ _ h).1⟩
      · have hcurrent := hs.current j r hr
        dsimp only
        rw [get_deleteWhere, hcurrent, Option.filter_some_pos]
        have hne : r.key ≠ key := by
          intro hkey
          rw [hkey, hentry] at hcurrent
          exact hidle j r hr (Option.some.inj hcurrent).symm
        simp [hne]
      · obtain ⟨hold, hne⟩ := hget _ _ h
        dsimp only
        rw [Function.update_of_ne hne]
        exact hs.counted _ _ hold

section steps
variable [DecidableEq ι]

theorem State.Sound.ask (hs : s.Sound permits) (i : ι) (key : κ) : (s.ask permits i key).Sound permits := by
  unfold State.ask
  split
  · exact hs
  · next hnone =>
    have hfree (kind : Reference κ → Prop) : ¬ Clients s.reference kind i := by
      rintro ⟨r, hr, -⟩
      rw [hnone] at hr
      cases hr
    split
    · next lock hentry =>
      refine ⟨fun j r hr => ?_, hs.apart, hs.below, fun key' lock' h => ?_, fun key' lock' h => ?_⟩ <;> dsimp only at *
      · by_cases hj : j = i
        · rw [hj, Function.update_self, Option.some.injEq] at hr
          rw [← hr]
          exact hentry
        · rw [Function.update_of_ne hj] at hr
          exact hs.current j r hr
      · obtain ⟨n, htally, hstrong⟩ := hs.counted key' lock' h
        by_cases hlock : lock' = lock
        · rw [hlock, Function.update_self]
          rw [hlock] at htally hstrong
          exact ⟨n + 1, tally_gain htally (hfree _) ⟨_, rfl, rfl⟩, by omega⟩
        · rw [Function.update_of_ne hlock]
          refine ⟨n, tally_same htally ⟨fun h => absurd h (hfree _), ?_⟩, hstrong⟩
          rintro ⟨r, hr, hto⟩
          rw [← Option.some.inj hr] at hto
          exact absurd hto.symm hlock
      · obtain ⟨n, htally, hsum⟩ := hs.shared key' lock' h
        refine ⟨n, tally_same htally ⟨fun h => absurd h (hfree _), ?_⟩, hsum⟩
        rintro ⟨r, hr, -, hstage⟩
        rw [← Option.some.inj hr] at hstage
        cases hstage
    · next hentry =>
      have hget (key' : κ) (lock : Nat) (h : (s.entries.upsert key s.fresh id).get key' = some lock) :
          (key' = key ∧ lock = s.fresh) ∨ s.entries.get key' = some lock := by
        rw [get_upsert, hentry] at h
        split at h
        · next hkey => exact .inl ⟨hkey, (Option.some.inj h).symm⟩
        · exact .inr h
      have hunused (kind : Reference κ → Prop) (hkind : ∀ r, kind r → r.lock = s.fresh) (j : ι) : ¬ Clients s.reference kind j := by
        rintro ⟨r, hr, h⟩
        have hbelow := hs.below _ _ (hs.current j r hr)
        rw [hkind r h] at hbelow
        exact lt_irrefl _ hbelow
      refine ⟨fun j r hr => ?_, fun key₁ key₂ lock h₁ h₂ => ?_, fun key' lock h => ?_, fun key' lock h => ?_,
        fun key' lock h => ?_⟩ <;> dsimp only at *
      · by_cases hj : j = i
        · rw [hj, Function.update_self, Option.some.injEq] at hr
          rw [← hr, get_upsert_self, hentry]
          rfl
        · rw [Function.update_of_ne hj] at hr
          have hcurrent := hs.current j r hr
          have hne : r.key ≠ key := by
            intro hkey
            rw [hkey, hentry] at hcurrent
            cases hcurrent
          rwa [get_upsert_of_ne _ hne]
      · rcases hget _ _ h₁ with ⟨hkey₁, hlock₁⟩ | hold₁ <;> rcases hget _ _ h₂ with ⟨hkey₂, hlock₂⟩ | hold₂
        · rw [hkey₁, hkey₂]
        · have hbelow := hs.below _ _ hold₂
          omega
        · have hbelow := hs.below _ _ hold₁
          omega
        · exact hs.apart _ _ _ hold₁ hold₂
      · rcases hget _ _ h with ⟨-, hlock⟩ | hold
        · omega
        · have hbelow := hs.below _ _ hold
          omega
      · rcases hget _ _ h with ⟨-, hlock⟩ | hold
        · rw [hlock, Function.update_self]
          exact ⟨1, tally_gain (Tally.of_none (hunused _ fun _ h => h)) (hfree _) ⟨_, rfl, rfl⟩, rfl⟩
        · have hne := (hs.below _ _ hold).ne
          obtain ⟨n, htally, hstrong⟩ := hs.counted _ _ hold
          rw [Function.update_of_ne hne]
          refine ⟨n, tally_same htally ⟨fun h => absurd h (hfree _), ?_⟩, hstrong⟩
          rintro ⟨r, hr, hto⟩
          rw [← Option.some.inj hr] at hto
          exact absurd hto.symm hne
      · have hsame (lock' : Nat) : Clients s.reference (Reference.Permit lock') i ↔
            ∃ r, some (Reference.mk key s.fresh .waiting) = some r ∧ r.Permit lock' := by
          refine ⟨fun h => absurd h (hfree _), ?_⟩
          rintro ⟨r, hr, -, hstage⟩
          rw [← Option.some.inj hr] at hstage
          cases hstage
        rcases hget _ _ h with ⟨-, hlock⟩ | hold
        · rw [hlock, Function.update_self]
          exact ⟨0, tally_same (Tally.of_none (hunused _ fun _ h => h.1)) (hsame _), rfl⟩
        · obtain ⟨n, htally, hsum⟩ := hs.shared _ _ hold
          rw [Function.update_of_ne (hs.below _ _ hold).ne]
          exact ⟨n, tally_same htally (hsame _), hsum⟩

/-- A client that goes on with the lock it has leaves the map's counts of references as they are. -/
theorem State.Sound.move {r : Reference κ} {stage : Stage} {available : Nat → Nat} (hs : s.Sound permits) (hr : s.reference i = some r)
    (hshared : ∀ key lock, s.entries.get key = some lock → ∃ n,
      Tally (Clients (Function.update s.reference i (some { r with stage })) (Reference.Permit lock)) n ∧ available lock + n = permits) :
    ({ s with available, reference := Function.update s.reference i (some { r with stage }) } : State κ ι).Sound permits := by
  refine ⟨fun j r' hr' => ?_, hs.apart, hs.below, fun key lock h => ?_, hshared⟩ <;> dsimp only at *
  · by_cases hj : j = i
    · rw [hj, Function.update_self, Option.some.injEq] at hr'
      rw [← hr']
      exact hs.current i r hr
    · rw [Function.update_of_ne hj] at hr'
      exact hs.current j r' hr'
  · obtain ⟨n, htally, hstrong⟩ := hs.counted key lock h
    refine ⟨n, tally_same htally ?_, hstrong⟩
    simp [Clients, hr, Reference.To]

theorem State.Sound.take (hs : s.Sound permits) (i : ι) : (s.take i).Sound permits := by
  unfold State.take
  split
  · next key lock hr =>
    split
    · exact hs
    · next hsome =>
      refine hs.move hr fun key' lock' h => ?_
      obtain ⟨n, htally, hsum⟩ := hs.shared key' lock' h
      by_cases hlock : lock' = lock
      · rw [hlock, Function.update_self]
        rw [hlock] at htally hsum
        exact ⟨n + 1, tally_gain htally (by simp [Clients, hr, Reference.Permit]) ⟨_, rfl, rfl, rfl⟩, by omega⟩
      · rw [Function.update_of_ne hlock]
        exact ⟨n, tally_same htally (by simp [Clients, hr, Reference.Permit, Ne.symm hlock]), hsum⟩
  · exact hs

theorem State.Sound.giveBack (hs : s.Sound permits) (i : ι) : (s.giveBack i).Sound permits := by
  unfold State.giveBack
  split
  · next key lock hr =>
    refine hs.move hr fun key' lock' h => ?_
    obtain ⟨n, htally, hsum⟩ := hs.shared key' lock' h
    by_cases hlock : lock' = lock
    · rw [hlock, Function.update_self]
      rw [hlock] at htally hsum
      have hpermit : Clients s.reference (Reference.Permit lock) i := ⟨_, hr, rfl, rfl⟩
      have hpos := htally.pos hpermit
      exact ⟨n - 1, tally_lose htally hpermit (by simp [Reference.Permit]), by omega⟩
    · rw [Function.update_of_ne hlock]
      exact ⟨n, tally_same htally (by simp [Clients, hr, Reference.Permit, Ne.symm hlock]), hsum⟩
  · exact hs

/-- A reference without a permit goes. -/
theorem State.Sound.drop {r : Reference κ} (hs : s.Sound permits) (hr : s.reference i = some r) (hstage : r.stage ≠ .holding) :
    ({ s with
      strong := Function.update s.strong r.lock (s.strong r.lock - 1)
      reference := Function.update s.reference i none } : State κ ι).Sound permits := by
  refine ⟨fun j r' hr' => ?_, hs.apart, hs.below, fun key' lock' h => ?_, fun key' lock' h => ?_⟩ <;> dsimp only at *
  · by_cases hj : j = i
    · rw [hj, Function.update_self] at hr'
      cases hr'
    · rw [Function.update_of_ne hj] at hr'
      exact hs.current j r' hr'
  · obtain ⟨n, htally, hstrong⟩ := hs.counted key' lock' h
    by_cases hlock : lock' = r.lock
    · rw [hlock, Function.update_self]
      rw [hlock] at htally hstrong
      have hto : Clients s.reference (Reference.To r.lock) i := ⟨r, hr, rfl⟩
      have hpos := htally.pos hto
      exact ⟨n - 1, tally_lose htally hto (by simp), by omega⟩
    · rw [Function.update_of_ne hlock]
      exact ⟨n, tally_same htally (by simp [Clients, hr, Reference.To, Ne.symm hlock]), hstrong⟩
  · obtain ⟨n, htally, hsum⟩ := hs.shared key' lock' h
    exact ⟨n, tally_same htally (by simp [Clients, hr, Reference.Permit, hstage]), hsum⟩

theorem State.Sound.letGo (hs : s.Sound permits) (i : ι) : (s.letGo i).Sound permits := by
  unfold State.letGo
  split
  · next hr => exact hs.drop hr (by simp)
  · next hr => exact hs.drop hr (by simp)
  · exact hs

end steps

end keys

end SharedLocks
