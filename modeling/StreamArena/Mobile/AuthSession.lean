import Mathlib
import StreamArena.Library.Decimal
import StreamArena.Library.Runs
import StreamArena.Library.TaskPool

/-! Who is signed in on a device (mobile/src/lib/auth.tsx): the session checks, sign-ins and sign-outs in flight, and
the generation that keeps a check from undoing what was done after it was sent. -/
namespace StreamArena.Mobile.Auth
open AsciiText Decimal Runs TaskPool

structure AuthUser where
  id : Int
  email : Text
  displayName : Option Text
  emailVerified : Bool
  isAdmin : Bool
  deriving DecidableEq

inductive Status where
  | loading | authenticated | unauthenticated
  deriving DecidableEq

def Status.text : Status → Text
  | loading => "loading".toList
  | authenticated => "authenticated".toList
  | unauthenticated => "unauthenticated".toList

/-- What the provider shows and the user it keeps for the next start. -/
structure Session where
  user : Option AuthUser
  status : Status
  cached : Option AuthUser
  deriving DecidableEq

def statusOf (user : Option AuthUser) : Status := if user.isSome then .authenticated else .unauthenticated

def scopeFor (s : Session) : Text :=
  match s.user with
  | some user => decimalText user.id
  | none => s.status.text

/-- A session check: the generation it has taken down, how many actions had completed when its request was sent, and
whether a sign-out was in flight then. -/
structure Check where
  generation : Nat
  sentAt : Nat
  duringSignOut : Bool
  deriving DecidableEq

inductive SignKind where
  | signIn | signUp
  deriving DecidableEq

/-- A call between its awaits. A sign-out has the generation that it began. -/
inductive Call where
  | check (c : Check)
  | checkBody (c : Check)
  | sign (kind : SignKind)
  | signBody (kind : SignKind) (ok : Bool)
  | signOut (began : Nat)
  | signOutCookies (began : Nat)
  deriving DecidableEq

def Call.check? : Call → Option Check
  | check c | checkBody c => some c
  | sign _ | signBody _ _ | signOut _ | signOutCookies _ => none

def Call.began? : Call → Option Nat
  | signOut began | signOutCookies began => some began
  | check _ | checkBody _ | sign _ | signBody _ _ => none

/-- How the request of a check ends: it fails or times out, is denied, has another status than success, or succeeds. -/
inductive Answer where
  | failed | denied | bad | ok
  deriving DecidableEq

/-- What the session was set to last, and how many actions had completed by then, the one that set it among them; for a
check, by the time its request was sent. -/
structure Origin where
  since : Nat
  session : Session
  deriving DecidableEq

structure World where
  generation : Nat
  session : Session
  scope : Text
  /-- The user or the status has changed since the last rendering. -/
  dirty : Bool
  /-- The scopes that effects of past renderings have yet to set. -/
  effects : List Text
  calls : Pool Call
  completions : Nat
  origin : Origin

inductive Event where
  | refresh (showLoading : Bool)
  | checked (call : Nat) (answer : Answer)
  | checkRead (call : Nat) (user : Option AuthUser)
  | sign (kind : SignKind)
  | signed (call : Nat) (ok : Option Bool)
  | signRead (call : Nat) (user : Option AuthUser)
  | signOut
  | loggedOut (call : Nat)
  | cookiesCleared (call : Nat)
  | authRequired
  | render
  | effect

namespace Session

def signedOut : Session := ⟨none, .unauthenticated, none⟩

def signedIn (user : AuthUser) : Session := ⟨some user, .authenticated, some user⟩

/-- After a check that failed: the user that is kept. -/
def restored (s : Session) : Session := ⟨s.cached, statusOf s.cached, s.cached⟩

def fetched (user : Option AuthUser) : Session := ⟨user, statusOf user, user⟩

/-- What a check makes of the session once its request has ended, unless its body is read first. -/
def answered (s : Session) : Answer → Option Session
  | .failed | .bad => some s.restored
  | .denied => some signedOut
  | .ok => none

end Session

namespace World

def opened (cached : Option AuthUser) : World :=
  let session : Session := ⟨cached, if cached.isSome then .authenticated else .loading, cached⟩
  { generation := 0, session := session, scope := "loading".toList, dirty := true, effects := [], calls := .empty,
    completions := 0, origin := ⟨0, session⟩ }

def shows (w : World) (s : Session) : World :=
  { w with session := s, dirty := w.dirty || s.user != w.session.user || s.status != w.session.status }

def setAccountScope (w : World) (scope : Text) : World := { w with scope := scope }

def drop (w : World) (call : Nat) : World := { w with calls := w.calls.drop call }

def put (w : World) (call : Nat) (next : Call) : World := { w with calls := w.calls.put call next }

def bump (w : World) : World := { w with generation := w.generation + 1 }

/-- An action completes. -/
def completes (w : World) (s : Session) : World :=
  { w.shows s with completions := w.completions + 1, origin := ⟨w.completions + 1, s⟩ }

/-- A check sets the session, which counts when it changes it. -/
def settles (w : World) (c : Check) (s : Session) : World :=
  if s = w.session then w else { w.shows s with origin := ⟨c.sentAt, s⟩ }

def signOutInFlight (w : World) : Bool :=
  (List.range w.calls.next).any fun n => (w.calls.get n).any fun call => call.began?.isSome

def refresh (w : World) (showLoading : Bool) : World :=
  let w' := { w with calls := w.calls.add (.check ⟨w.generation, w.completions, w.signOutInFlight⟩) }
  if showLoading then w'.shows { w.session with status := .loading } else w'

def checked (w : World) (call : Nat) (answer : Answer) : World :=
  match w.calls.get call with
  | some (.check c) =>
    if c.generation ≠ w.generation then w.drop call
    else
      match w.session.answered answer with
      | none => w.put call (.checkBody c)
      | some s => (w.drop call).settles c s
  | _ => w

def checkRead (w : World) (call : Nat) (user : Option AuthUser) : World :=
  match w.calls.get call with
  | some (.checkBody c) =>
    if c.generation ≠ w.generation then w.drop call else (w.drop call).settles c (.fetched user)
  | _ => w

def signed (w : World) (call : Nat) (ok : Option Bool) : World :=
  match w.calls.get call with
  | some (.sign kind) =>
    match ok with
    | none => w.drop call
    | some ok => w.put call (.signBody kind ok)
  | _ => w

/-- The end of a sign-in or a sign-up: the new user counts only with a response that succeeded. -/
def signRead (w : World) (call : Nat) (user : Option AuthUser) : World :=
  match w.calls.get call with
  | some (.signBody _ ok) =>
    match if ok then user else none with
    | none => w.drop call
    | some user => (((w.drop call).bump.setAccountScope (decimalText user.id))).completes (.signedIn user)
  | _ => w

def signOut (w : World) : World :=
  { w.bump with calls := w.calls.add (.signOut (w.generation + 1)) }

def loggedOut (w : World) (call : Nat) : World :=
  match w.calls.get call with
  | some (.signOut began) => w.put call (.signOutCookies began)
  | _ => w

def cookiesCleared (w : World) (call : Nat) : World :=
  match w.calls.get call with
  | some (.signOutCookies _) =>
    ((w.drop call).setAccountScope Status.unauthenticated.text).completes .signedOut
  | _ => w

def authRequired (w : World) : World := w.bump.completes .signedOut

/-- A rendering leaves its effect for later. -/
def render (w : World) : World :=
  if w.dirty then { w with dirty := false, effects := w.effects ++ [scopeFor w.session] } else w

def effect (w : World) : World :=
  match w.effects with
  | [] => w
  | scope :: effects => { w.setAccountScope scope with effects := effects }

end World

def step (w : World) : Event → World
  | .refresh showLoading => w.refresh showLoading
  | .checked call answer => w.checked call answer
  | .checkRead call user => w.checkRead call user
  | .sign kind => { w with calls := w.calls.add (.sign kind) }
  | .signed call ok => w.signed call ok
  | .signRead call user => w.signRead call user
  | .signOut => w.signOut
  | .loggedOut call => w.loggedOut call
  | .cookiesCleared call => w.cookiesCleared call
  | .authRequired => w.authRequired
  | .render => w.render
  | .effect => w.effect

/-- Nothing is in flight and no rendering or effect is due. -/
structure Quiescent (w : World) : Prop where
  calls : ∀ n, w.calls.get n = none
  rendered : w.dirty = false
  effects : w.effects = []

/-- The session was set by the action that completed last or by a check sent since, and is there at quiescence. -/
structure Kept (w : World) : Prop where
  since : w.origin.since = w.completions
  shown : Quiescent w → w.session = w.origin.session ∧ w.scope = scopeFor w.session

/-- The check that an event settles, with what it makes of the session. -/
def Settles (w : World) (c : Check) (s : Session) : Event → Prop
  | .checked call answer => w.calls.get call = some (.check c) ∧ w.session.answered answer = some s
  | .checkRead call user => w.calls.get call = some (.checkBody c) ∧ s = .fetched user
  | _ => False

/-- No check that was sent while a sign-out was in flight changes the session in its generation once an action has completed. -/
def NotBehindSignOut (w : World) (e : Event) : Prop :=
  ∀ c s, Settles w c s e → c.duringSignOut = true → c.generation = w.generation → c.sentAt < w.completions → s = w.session

/-- The scope is that of the session, or is to be set to it. -/
def ScopeSound (w : World) : Prop := w.dirty = true ∨ w.effects.getLast?.getD w.scope = scopeFor w.session

/-- A call that may still set the status. -/
def Pending (generation : Nat) (call : Call) : Prop :=
  (∃ c, call.check? = some c ∧ c.generation = generation) ∨ call.began?.isSome = true

/-- The session is as it was set last, or loading again until a call settles. -/
def ShownSound (w : World) : Prop :=
  w.session = w.origin.session ∨
    w.session = { w.origin.session with status := .loading } ∧ w.calls.Has (Pending w.generation)

/-- The checks in flight: one of the current generation that was sent before an action completed was sent while a
sign-out was in flight, for only a sign-out completes without a generation of its own. -/
structure Calls (calls : Pool Call) (generation completions : Nat) : Prop where
  older : ∀ n call c, calls.get n = some call → call.check? = some c → c.generation ≤ generation ∧ c.sentAt ≤ completions
  began : ∀ n call began, calls.get n = some call → call.began? = some began → began ≤ generation
  late : ∀ n call c, calls.get n = some call → call.check? = some c → c.generation = generation → c.sentAt < completions →
    c.duringSignOut = true
  window : ∀ n m call other began c, calls.get n = some call → call.began? = some began → calls.get m = some other →
    other.check? = some c → began ≤ c.generation → c.duringSignOut = true

structure Sound (w : World) : Prop where
  calls : Calls w.calls w.generation w.completions
  shown : ShownSound w
  scope : ScopeSound w

section calls
variable {calls calls' : Pool Call} {generation completions : Nat} {call : Call} {n : Nat}

/-- Every call of the one pool is one of the other, of the same check or sign-out. -/
def FromCalls (calls calls' : Pool Call) : Prop :=
  ∀ n call, calls'.get n = some call → (∃ m old, calls.get m = some old ∧ old.check? = call.check? ∧ old.began? = call.began?) ∨
    call.check? = none ∧ call.began? = none

theorem Calls.mono (h : Calls calls generation completions) (hfrom : FromCalls calls calls') : Calls calls' generation completions where
  older n call c hcall hc := by
    obtain ⟨m, old, hold, hcheck, -⟩ | ⟨hnone, -⟩ := hfrom n call hcall
    · exact h.older m old c hold (hcheck.trans hc)
    · cases hnone.symm.trans hc
  began n call b hcall hb := by
    obtain ⟨m, old, hold, -, hbegan⟩ | ⟨-, hnone⟩ := hfrom n call hcall
    · exact h.began m old b hold (hbegan.trans hb)
    · cases hnone.symm.trans hb
  late n call c hcall hc := by
    obtain ⟨m, old, hold, hcheck, -⟩ | ⟨hnone, -⟩ := hfrom n call hcall
    · exact h.late m old c hold (hcheck.trans hc)
    · cases hnone.symm.trans hc
  window n m call other b c hcall hb hother hc := by
    obtain ⟨n', old, hold, -, hbegan⟩ | ⟨-, hnone⟩ := hfrom n call hcall
    · obtain ⟨m', old', hold', hcheck, -⟩ | ⟨hnone, -⟩ := hfrom m other hother
      · exact h.window n' m' old old' b c hold (hbegan.trans hb) hold' (hcheck.trans hc)
      · cases hnone.symm.trans hc
    · cases hnone.symm.trans hb

theorem fromCalls_drop : FromCalls calls (calls.drop n) := fun m other hother =>
  .inl ⟨m, other, (Pool.get_drop_eq_some.mp hother).2, rfl, rfl⟩

theorem fromCalls_put {next : Call} (hcall : calls.get n = some call) (hcheck : call.check? = next.check?)
    (hbegan : call.began? = next.began?) : FromCalls calls (calls.put n next) := fun m other hother => by
  obtain ⟨-, old, hold, hnext⟩ | ⟨-, hother⟩ := Pool.get_change_eq_some.mp hother
  · rw [← Option.some.inj hnext]
    exact .inl ⟨n, call, hcall, hcheck, hbegan⟩
  · exact .inl ⟨m, other, hother, rfl, rfl⟩

theorem fromCalls_add (hcheck : call.check? = none) (hbegan : call.began? = none) : FromCalls calls (calls.add call) :=
  fun m other hother => by
    obtain ⟨-, rfl⟩ | hother := Pool.get_add_eq_some.mp hother
    · exact .inr ⟨hcheck, hbegan⟩
    · exact .inl ⟨m, other, hother, rfl, rfl⟩

/-- After a new generation no check is of the current one. -/
theorem Calls.bump (h : Calls calls generation completions) {completions' : Nat} (hle : completions ≤ completions') :
    Calls calls (generation + 1) completions' where
  older n call c hcall hc := by
    have hold := h.older n call c hcall hc
    omega
  began n call b hcall hb := by
    have hold := h.began n call b hcall hb
    omega
  late n call c hcall hc heq := by
    have hold := h.older n call c hcall hc
    omega
  window := h.window

/-- A sign-out that completes was in flight when a check of its generation was sent. -/
theorem Calls.complete (h : Calls calls generation completions) {began : Nat} (hcall : calls.get n = some call)
    (hbegan : call.began? = some began) : Calls calls generation (completions + 1) where
  older m other c hother hc := by
    have hold := h.older m other c hother hc
    omega
  began := h.began
  late m other c hother hc heq _ := by
    have hle := h.began n call began hcall hbegan
    exact h.window n m call other began c hcall hbegan hother hc (by omega)
  window := h.window

theorem Calls.add_check (h : Calls calls generation completions) {during : Bool}
    (hduring : (∃ n call, calls.get n = some call ∧ call.began?.isSome = true) → during = true) :
    Calls (calls.add (.check ⟨generation, completions, during⟩)) generation completions where
  older n call c hcall hc := by
    obtain ⟨-, rfl⟩ | hcall := Pool.get_add_eq_some.mp hcall
    · rw [← Option.some.inj hc]
      exact ⟨Nat.le_refl _, Nat.le_refl _⟩
    · exact h.older n call c hcall hc
  began n call b hcall hb := by
    obtain ⟨-, rfl⟩ | hcall := Pool.get_add_eq_some.mp hcall
    · cases hb
    · exact h.began n call b hcall hb
  late n call c hcall hc heq hlt := by
    obtain ⟨-, rfl⟩ | hcall := Pool.get_add_eq_some.mp hcall
    · rw [← Option.some.inj hc] at hlt
      exact absurd hlt (Nat.lt_irrefl _)
    · exact h.late n call c hcall hc heq hlt
  window n m call other b c hcall hb hother hc hle := by
    obtain ⟨-, rfl⟩ | hcall := Pool.get_add_eq_some.mp hcall
    · cases hb
    · obtain ⟨-, rfl⟩ | hother := Pool.get_add_eq_some.mp hother
      · rw [← Option.some.inj hc]
        exact hduring ⟨n, call, hcall, by rw [hb]; rfl⟩
      · exact h.window n m call other b c hcall hb hother hc hle

theorem Calls.add_signOut (h : Calls calls generation completions) :
    Calls (calls.add (.signOut (generation + 1))) (generation + 1) completions where
  older n call c hcall hc := by
    obtain ⟨-, rfl⟩ | hcall := Pool.get_add_eq_some.mp hcall
    · cases hc
    · exact (h.bump (Nat.le_refl _)).older n call c hcall hc
  began n call b hcall hb := by
    obtain ⟨-, rfl⟩ | hcall := Pool.get_add_eq_some.mp hcall
    · rw [← Option.some.inj hb]
    · exact (h.bump (Nat.le_refl _)).began n call b hcall hb
  late n call c hcall hc := by
    obtain ⟨-, rfl⟩ | hcall := Pool.get_add_eq_some.mp hcall
    · cases hc
    · exact (h.bump (Nat.le_refl _)).late n call c hcall hc
  window n m call other b c hcall hb hother hc hle := by
    obtain ⟨-, rfl⟩ | hother := Pool.get_add_eq_some.mp hother
    · cases hc
    · obtain ⟨-, rfl⟩ | hcall := Pool.get_add_eq_some.mp hcall
      · have hold := (h.older m other c hother hc).1
        rw [← Option.some.inj hb] at hle
        omega
      · exact h.window n m call other b c hcall hb hother hc hle

end calls

theorem signOutInFlight_of_mem {w : World} {n : Nat} {call : Call} (hcall : w.calls.get n = some call)
    (hbegan : call.began?.isSome = true) : w.signOutInFlight = true := by
  rw [World.signOutInFlight, List.any_eq_true]
  exact ⟨n, List.mem_range.mpr (Pool.lt_next hcall), by rw [hcall]; exact hbegan⟩

section scope
variable {w : World} {s : Session} {scope : Text}

theorem scopeFor_congr {s s' : Session} (huser : s.user = s'.user) (hstatus : s.status = s'.status) :
    scopeFor s = scopeFor s' := by
  simp only [scopeFor, huser, hstatus]

theorem scopeFor_signedIn (user : AuthUser) : scopeFor (.signedIn user) = decimalText user.id := rfl

theorem scopeFor_signedOut : scopeFor .signedOut = Status.unauthenticated.text := rfl

theorem ScopeSound.shows (h : ScopeSound w) : ScopeSound (w.shows s) := by
  by_cases hsame : s.user = w.session.user ∧ s.status = w.session.status
  · obtain hdirty | hscope := h
    · left
      simp [World.shows, hdirty]
    · right
      exact hscope.trans (scopeFor_congr hsame.1.symm hsame.2.symm)
  · left
    simp only [World.shows, Bool.or_eq_true, bne_iff_ne]
    tauto

/-- A scope set outright is that of the session set with it. -/
theorem ScopeSound.setAccountScope (h : ScopeSound w) (hscope : scopeFor s = scope) :
    ScopeSound ((w.setAccountScope scope).shows s) := by
  by_cases hsame : s.user = w.session.user ∧ s.status = w.session.status
  · obtain hdirty | hold := h
    · left
      simp [World.shows, World.setAccountScope, hdirty]
    · right
      have hcongr := scopeFor_congr hsame.1 hsame.2
      cases heffects : w.effects.getLast? with
      | none => simp [World.shows, World.setAccountScope, heffects, hscope]
      | some last =>
        rw [heffects] at hold
        simpa [World.shows, World.setAccountScope, heffects, hcongr] using hold
  · left
    simp only [World.shows, World.setAccountScope, Bool.or_eq_true, bne_iff_ne]
    tauto

theorem ScopeSound.render (h : ScopeSound w) : ScopeSound w.render := by
  unfold World.render
  split
  · right
    simp
  · exact h

theorem ScopeSound.effect (h : ScopeSound w) : ScopeSound w.effect := by
  unfold World.effect
  split
  · exact h
  · next first rest heffects =>
    obtain hdirty | hscope := h
    · exact .inl hdirty
    · right
      rw [heffects] at hscope
      cases rest with
      | nil => exact hscope
      | cons second rest => simpa [World.setAccountScope, List.getLast?_cons] using hscope

end scope

section shown
variable {w : World} {s : Session} {n : Nat} {call next : Call}

theorem pending_began (hbegan : call.began?.isSome = true) {generation : Nat} : Pending generation call := .inr hbegan

/-- The end of a call that sets nothing leaves the calls that may. -/
theorem ShownSound.drop (h : ShownSound w) (hcall : w.calls.get n = some call) (hnot : ¬ Pending w.generation call) :
    ShownSound (w.drop n) := by
  obtain hshown | ⟨hshown, hpending⟩ := h
  · exact .inl hshown
  · refine .inr ⟨hshown, hpending.drop fun other hother => ?_⟩
    rw [hcall] at hother
    rwa [← Option.some.inj hother]

/-- A call that goes on may set what it could before. -/
theorem ShownSound.put (h : ShownSound w) (hcall : w.calls.get n = some call)
    (hnext : Pending w.generation call → Pending w.generation next) : ShownSound (w.put n next) := by
  obtain hshown | ⟨hshown, hpending⟩ := h
  · exact .inl hshown
  · refine .inr ⟨hshown, hpending.change fun other hother hold => ⟨next, rfl, ?_⟩⟩
    rw [hcall] at hother
    rw [← Option.some.inj hother] at hold
    exact hnext hold

theorem ShownSound.add (h : ShownSound w) : ShownSound { w with calls := w.calls.add call } := by
  obtain hshown | ⟨hshown, hpending⟩ := h
  · exact .inl hshown
  · exact .inr ⟨hshown, Pool.has_add.mpr (.inr hpending)⟩

/-- What settles a check is never loading, so that it only leaves the session where that is not loading. -/
theorem ShownSound.settles (h : ShownSound w) (hstatus : s.status ≠ .loading) (c : Check) :
    ShownSound ((w.drop n).settles c s) := by
  unfold World.settles
  split
  · next hsame =>
    obtain hshown | ⟨hshown, -⟩ := h
    · exact .inl hshown
    · have hloading : w.session.status = .loading := by rw [hshown]
      exact absurd ((congrArg Session.status hsame).trans hloading) hstatus
  · exact .inl rfl

end shown

theorem statusOf_ne_loading (user : Option AuthUser) : statusOf user ≠ .loading := by
  unfold statusOf
  split <;> simp

theorem status_of_answered {s s' : Session} {answer : Answer} (h : s.answered answer = some s') : s'.status ≠ .loading := by
  cases answer with
  | failed | bad =>
    rw [← Option.some.inj h]
    exact statusOf_ne_loading _
  | denied =>
    rw [← Option.some.inj h]
    simp [Session.signedOut]
  | ok => cases h

section sound
variable {w : World} {s : Session} {n : Nat} {call next : Call} {c : Check}

theorem Sound.drop (h : Sound w) (hcall : w.calls.get n = some call) (hnot : ¬ Pending w.generation call) :
    Sound (w.drop n) where
  calls := h.calls.mono fromCalls_drop
  shown := h.shown.drop hcall hnot
  scope := h.scope

theorem Sound.put (h : Sound w) (hcall : w.calls.get n = some call) (hcheck : call.check? = next.check?)
    (hbegan : call.began? = next.began?) : Sound (w.put n next) where
  calls := h.calls.mono (fromCalls_put hcall hcheck hbegan)
  shown := h.shown.put hcall fun hpending => by rwa [Pending, ← hcheck, ← hbegan]
  scope := h.scope

theorem Sound.settles (h : Sound w) (hstatus : s.status ≠ .loading) : Sound ((w.drop n).settles c s) := by
  have hshown := h.shown.settles hstatus c (n := n)
  unfold World.settles at hshown ⊢
  split
  · next hsame =>
    rw [if_pos hsame] at hshown
    exact ⟨h.calls.mono fromCalls_drop, hshown, h.scope⟩
  · next hne =>
    rw [if_neg hne] at hshown
    have hscope : ScopeSound (w.drop n) := h.scope
    exact ⟨h.calls.mono fromCalls_drop, hshown, hscope.shows⟩

/-- An action that completes, with the generation that it leaves. -/
theorem Sound.completes {calls : Pool Call} {generation : Nat} {scope : Text} (h : Sound w)
    (hcalls : Calls calls generation (w.completions + 1)) (hscope : scopeFor s = scope) :
    Sound ((({ w with calls := calls, generation := generation }).setAccountScope scope).completes s) where
  calls := hcalls
  shown := .inl rfl
  scope := ScopeSound.setAccountScope (w := { w with calls := calls, generation := generation }) h.scope hscope

theorem not_pending_sign (kind : SignKind) (generation : Nat) : ¬ Pending generation (.sign kind) := by
  simp [Pending, Call.check?, Call.began?]

theorem not_pending_signBody (kind : SignKind) (ok : Bool) (generation : Nat) : ¬ Pending generation (.signBody kind ok) := by
  simp [Pending, Call.check?, Call.began?]

/-- A check of an older generation sets nothing. -/
theorem not_pending_of_ne {generation : Nat} (hcheck : call.check? = some c) (hbegan : call.began? = none)
    (hne : c.generation ≠ generation) : ¬ Pending generation call := by
  simp only [Pending, hcheck, hbegan, Option.some.injEq, exists_eq_left', hne, Option.isSome_none, Bool.false_eq_true,
    or_false, not_false_eq_true]

theorem sound_refresh (h : Sound w) (showLoading : Bool) : Sound (w.refresh showLoading) := by
  have hcalls : Calls (w.calls.add (.check ⟨w.generation, w.completions, w.signOutInFlight⟩)) w.generation w.completions :=
    h.calls.add_check fun ⟨n, call, hcall, hbegan⟩ => signOutInFlight_of_mem hcall hbegan
  cases showLoading with
  | false => exact ⟨hcalls, h.shown.add, h.scope⟩
  | true =>
    refine ⟨hcalls, .inr ⟨?_, Pool.has_add.mpr (.inl (.inl ⟨_, rfl, rfl⟩))⟩, ScopeSound.shows h.scope⟩
    obtain hshown | ⟨hshown, -⟩ := h.shown
    · simp [World.refresh, World.shows, hshown]
    · simp [World.refresh, World.shows, hshown]

theorem sound_checked (h : Sound w) (n : Nat) (answer : Answer) : Sound (w.checked n answer) := by
  unfold World.checked
  split
  · next c hcall =>
    split
    · next hne => exact h.drop hcall (not_pending_of_ne rfl rfl hne)
    · split
      · exact h.put hcall rfl rfl
      · next s hanswer => exact h.settles (status_of_answered hanswer)
  · exact h

theorem sound_checkRead (h : Sound w) (n : Nat) (user : Option AuthUser) : Sound (w.checkRead n user) := by
  unfold World.checkRead
  split
  · next c hcall =>
    split
    · next hne => exact h.drop hcall (not_pending_of_ne rfl rfl hne)
    · exact h.settles (statusOf_ne_loading user)
  · exact h

theorem sound_signed (h : Sound w) (n : Nat) (ok : Option Bool) : Sound (w.signed n ok) := by
  unfold World.signed
  split
  · next kind hcall =>
    split
    · exact h.drop hcall (not_pending_sign kind _)
    · exact h.put hcall rfl rfl
  · exact h

theorem sound_signRead (h : Sound w) (n : Nat) (user : Option AuthUser) : Sound (w.signRead n user) := by
  unfold World.signRead
  split
  · next kind ok hcall =>
    split
    · exact h.drop hcall (not_pending_signBody kind ok _)
    · next user _ =>
      exact h.completes ((h.calls.mono fromCalls_drop).bump (Nat.le_succ _)) (scopeFor_signedIn user)
  · exact h

theorem sound_signOut (h : Sound w) : Sound w.signOut where
  calls := h.calls.add_signOut
  shown := by
    obtain hshown | ⟨hshown, -⟩ := h.shown
    · exact .inl hshown
    · exact .inr ⟨hshown, Pool.has_add.mpr (.inl (pending_began rfl))⟩
  scope := h.scope

theorem sound_loggedOut (h : Sound w) (n : Nat) : Sound (w.loggedOut n) := by
  unfold World.loggedOut
  split
  · next began hcall => exact h.put hcall rfl rfl
  · exact h

theorem sound_cookiesCleared (h : Sound w) (n : Nat) : Sound (w.cookiesCleared n) := by
  unfold World.cookiesCleared
  split
  · next began hcall =>
    exact h.completes ((h.calls.complete hcall rfl).mono fromCalls_drop) scopeFor_signedOut
  · exact h

theorem sound_authRequired (h : Sound w) : Sound w.authRequired where
  calls := h.calls.bump (Nat.le_succ _)
  shown := .inl rfl
  scope := ScopeSound.shows (w := w.bump) h.scope

theorem sound_render (h : Sound w) : Sound w.render := by
  have hscope := h.scope.render
  unfold World.render at hscope ⊢
  split
  · next hdirty =>
    rw [if_pos hdirty] at hscope
    exact ⟨h.calls, h.shown, hscope⟩
  · exact h

theorem sound_effect (h : Sound w) : Sound w.effect := by
  have hscope := h.scope.effect
  unfold World.effect at hscope ⊢
  split
  · exact h
  · next heffects =>
    rw [heffects] at hscope
    exact ⟨h.calls, h.shown, hscope⟩

theorem sound_step (h : Sound w) (e : Event) : Sound (step w e) := by
  cases e with
  | refresh showLoading => exact sound_refresh h showLoading
  | checked call answer => exact sound_checked h call answer
  | checkRead call user => exact sound_checkRead h call user
  | sign kind => exact ⟨h.calls.mono (fromCalls_add rfl rfl), h.shown.add, h.scope⟩
  | signed call ok => exact sound_signed h call ok
  | signRead call user => exact sound_signRead h call user
  | signOut => exact sound_signOut h
  | loggedOut call => exact sound_loggedOut h call
  | cookiesCleared call => exact sound_cookiesCleared h call
  | authRequired => exact sound_authRequired h
  | render => exact sound_render h
  | effect => exact sound_effect h

theorem sound_opened (cached : Option AuthUser) : Sound (.opened cached) where
  calls :=
    { older := fun _ _ _ h => by cases h
      began := fun _ _ _ h => by cases h
      late := fun _ _ _ h => by cases h
      window := fun _ _ _ _ _ _ h => by cases h }
  shown := .inl rfl
  scope := .inl rfl

/-- Of a sound session only the time it was set remains to be asked. -/
theorem Sound.kept_iff (h : Sound w) : Kept w ↔ w.origin.since = w.completions := by
  constructor
  · intro hkept
    exact hkept.since
  · intro hsince
    refine ⟨hsince, fun hquiet => ⟨?_, ?_⟩⟩
    · obtain hshown | ⟨-, n, call, hcall, -⟩ := h.shown
      · exact hshown
      · rw [hquiet.calls] at hcall
        cases hcall
    · obtain hdirty | hscope := h.scope
      · rw [hquiet.rendered] at hdirty
        cases hdirty
      · rwa [hquiet.effects] at hscope

end sound

section kept
variable {w : World} {e : Event}

/-- The time of the session that a step leaves is that of the action completed last. -/
def Dated (w : World) : Prop := w.origin.since = w.completions

/-- A check of the current generation dates the session wrongly only behind a sign-out. -/
theorem dated_settles_iff {n : Nat} {call : Call} {c : Check} {s : Session} (h : Sound w) (hdated : Dated w)
    (hcall : w.calls.get n = some call) (hc : call.check? = some c) (hgeneration : c.generation = w.generation) :
    Dated ((w.drop n).settles c s) ↔ (c.duringSignOut = true → c.sentAt < w.completions → s = w.session) := by
  by_cases hsame : s = w.session
  · have hkeep : (w.drop n).settles c s = w.drop n := if_pos hsame
    rw [hkeep]
    exact ⟨fun _ _ _ => hsame, fun _ => hdated⟩
  · have hset : (w.drop n).settles c s = { (w.drop n).shows s with origin := ⟨c.sentAt, s⟩ } := if_neg hsame
    rw [hset]
    change c.sentAt = w.completions ↔ _
    have hsent := (h.calls.older n call c hcall hc).2
    constructor
    · intro heq _ hlt
      omega
    · intro hcond
      by_contra hne
      have hlt : c.sentAt < w.completions := by omega
      exact hsame (hcond (h.calls.late n call c hcall hc hgeneration hlt) hlt)

theorem notBehindSignOut_of_not_settles (h : ∀ c s, ¬ Settles w c s e) : NotBehindSignOut w e :=
  fun c s hsettles => absurd hsettles (h c s)

/-- Where an event settles one check with one outcome, the condition is about that. -/
theorem notBehindSignOut_iff {c : Check} {s : Session} (h : ∀ c' s', Settles w c' s' e ↔ c' = c ∧ s' = s)
    (hgeneration : c.generation = w.generation) :
    NotBehindSignOut w e ↔ (c.duringSignOut = true → c.sentAt < w.completions → s = w.session) := by
  constructor
  · intro hcond hduring
    exact hcond c s ((h c s).mpr ⟨rfl, rfl⟩) hduring hgeneration
  · intro hcond c' s' hsettles hduring _
    obtain ⟨rfl, rfl⟩ := (h c' s').mp hsettles
    exact hcond hduring

/-- A check that is out of date settles nothing. -/
theorem notBehindSignOut_of_ne {c : Check} (h : ∀ c' s', Settles w c' s' e → c' = c) (hne : c.generation ≠ w.generation) :
    NotBehindSignOut w e := by
  intro c' s' hsettles _ hgeneration
  rw [h c' s' hsettles] at hgeneration
  exact absurd hgeneration hne

theorem dated_checked_iff (h : Sound w) (hdated : Dated w) (n : Nat) (answer : Answer) :
    Dated (w.checked n answer) ↔ NotBehindSignOut w (.checked n answer) := by
  unfold World.checked
  split
  · next c hcall =>
    have honly (c' : Check) (s' : Session) (hsettles : Settles w c' s' (.checked n answer)) : c' = c := by
      have hcheck := hcall.symm.trans hsettles.1
      cases hcheck
      rfl
    split
    · next hne => exact iff_of_true hdated (notBehindSignOut_of_ne honly hne)
    · next heq =>
      split
      · next hanswer =>
        refine iff_of_true hdated (notBehindSignOut_of_not_settles fun c' s' hsettles => ?_)
        cases hanswer.symm.trans hsettles.2
      · next s hanswer =>
        rw [dated_settles_iff h hdated hcall rfl (of_not_not heq), notBehindSignOut_iff (c := c) (s := s) ?_ (of_not_not heq)]
        intro c' s'
        constructor
        · intro hsettles
          exact ⟨honly c' s' hsettles, Option.some.inj (hsettles.2.symm.trans hanswer)⟩
        · rintro ⟨rfl, rfl⟩
          exact ⟨hcall, hanswer⟩
  · next hnot =>
    exact iff_of_true hdated (notBehindSignOut_of_not_settles fun c' s' hsettles => hnot c' hsettles.1)

theorem dated_checkRead_iff (h : Sound w) (hdated : Dated w) (n : Nat) (user : Option AuthUser) :
    Dated (w.checkRead n user) ↔ NotBehindSignOut w (.checkRead n user) := by
  unfold World.checkRead
  split
  · next c hcall =>
    have honly (c' : Check) (s' : Session) (hsettles : Settles w c' s' (.checkRead n user)) : c' = c := by
      have hcheck := hcall.symm.trans hsettles.1
      cases hcheck
      rfl
    split
    · next hne => exact iff_of_true hdated (notBehindSignOut_of_ne honly hne)
    · next heq =>
      rw [dated_settles_iff h hdated hcall rfl (of_not_not heq),
        notBehindSignOut_iff (c := c) (s := .fetched user) ?_ (of_not_not heq)]
      intro c' s'
      constructor
      · intro hsettles
        exact ⟨honly c' s' hsettles, hsettles.2⟩
      · rintro ⟨rfl, rfl⟩
        exact ⟨hcall, rfl⟩
  · next hnot =>
    exact iff_of_true hdated (notBehindSignOut_of_not_settles fun c' s' hsettles => hnot c' hsettles.1)

theorem dated_signed (hdated : Dated w) (n : Nat) (ok : Option Bool) : Dated (w.signed n ok) := by
  unfold World.signed
  split
  · split
    · exact hdated
    · exact hdated
  · exact hdated

theorem dated_signRead (hdated : Dated w) (n : Nat) (user : Option AuthUser) : Dated (w.signRead n user) := by
  unfold World.signRead
  split
  · split
    · exact hdated
    · rfl
  · exact hdated

theorem dated_loggedOut (hdated : Dated w) (n : Nat) : Dated (w.loggedOut n) := by
  unfold World.loggedOut
  split
  · exact hdated
  · exact hdated

theorem dated_cookiesCleared (hdated : Dated w) (n : Nat) : Dated (w.cookiesCleared n) := by
  unfold World.cookiesCleared
  split
  · rfl
  · exact hdated

theorem dated_refresh (hdated : Dated w) (showLoading : Bool) : Dated (w.refresh showLoading) := by
  cases showLoading with
  | false => exact hdated
  | true => exact hdated

theorem dated_render (hdated : Dated w) : Dated w.render := by
  unfold World.render
  split
  · exact hdated
  · exact hdated

theorem dated_effect (hdated : Dated w) : Dated w.effect := by
  unfold World.effect
  split
  · exact hdated
  · exact hdated

theorem dated_step_iff (h : Sound w) (hdated : Dated w) (e : Event) : Dated (step w e) ↔ NotBehindSignOut w e := by
  cases e with
  | checked n answer => exact dated_checked_iff h hdated n answer
  | checkRead n user => exact dated_checkRead_iff h hdated n user
  | refresh showLoading =>
    exact iff_of_true (dated_refresh hdated showLoading) (notBehindSignOut_of_not_settles fun _ _ => not_false)
  | sign kind => exact iff_of_true hdated (notBehindSignOut_of_not_settles fun _ _ => not_false)
  | signed n ok => exact iff_of_true (dated_signed hdated n ok) (notBehindSignOut_of_not_settles fun _ _ => not_false)
  | signRead n user => exact iff_of_true (dated_signRead hdated n user) (notBehindSignOut_of_not_settles fun _ _ => not_false)
  | signOut => exact iff_of_true hdated (notBehindSignOut_of_not_settles fun _ _ => not_false)
  | loggedOut n => exact iff_of_true (dated_loggedOut hdated n) (notBehindSignOut_of_not_settles fun _ _ => not_false)
  | cookiesCleared n =>
    exact iff_of_true (dated_cookiesCleared hdated n) (notBehindSignOut_of_not_settles fun _ _ => not_false)
  | authRequired => exact iff_of_true rfl (notBehindSignOut_of_not_settles fun _ _ => not_false)
  | render => exact iff_of_true (dated_render hdated) (notBehindSignOut_of_not_settles fun _ _ => not_false)
  | effect => exact iff_of_true (dated_effect hdated) (notBehindSignOut_of_not_settles fun _ _ => not_false)

theorem kept_step_iff (h : Sound w) (hkept : Kept w) : Kept (step w e) ↔ NotBehindSignOut w e := by
  rw [(sound_step h e).kept_iff]
  exact dated_step_iff h hkept.since e

end kept

theorem kept_opened (cached : Option AuthUser) : Kept (.opened cached) := (sound_opened cached).kept_iff.mpr rfl

/-- The session is at every point of a run that of the action that completed last, or of a check sent since, exactly when
no check sent while a sign-out was in flight settles behind it. -/
theorem session_kept_iff (cached : Option AuthUser) (events : List Event) :
    Throughout step Kept (.opened cached) events ↔ Each step NotBehindSignOut (.opened cached) events := by
  rw [throughout_iff_each (fun w e h => sound_step h e) (fun w e h hkept => kept_step_iff h hkept) (sound_opened cached)]
  exact and_iff_right (kept_opened cached)

/-- A check sent while the sign-out is in flight is answered before the cookie is gone and read after it: the user is
signed in again. -/
theorem signed_in_behind_signOut :
    ¬ ∀ (cached : Option AuthUser) (events : List Event), Throughout step Kept (.opened cached) events := by
  intro h
  let user : AuthUser := ⟨7, "a@b.c".toList, none, true, false⟩
  have hrun := (h (some user) [.signOut, .refresh false, .checked 1 .ok, .loggedOut 0, .cookiesCleared 0,
    .checkRead 1 (some user)]).last
  have hsince := hrun.since
  exact absurd hsince (by decide)

end StreamArena.Mobile.Auth
