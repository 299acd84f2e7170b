import StreamArena.Library.UrlHosts
import StreamArena.LiveHls.Worker

/-! Where the segment worker sends its own requests (resource.js): the host of every hop
of a chain of redirects is looked at before it is fetched. -/
namespace StreamArena.LiveHls.WorkerEgress
open AsciiText Urls
open Worker (isPublicHlsProxyHostname isJsWhitespace jsTrim)

def maxUpstreamRedirects : Nat := 3

structure Answer where
  status : Nat
  location : Option Text

inductive Failure where
  | unsafeRedirectTarget
  | redirectLimitExceeded
  | redirectMissingLocation
  | invalidUrl
  | fetchFailed
  deriving DecidableEq

def Failure.text : Failure → Text
  | .unsafeRedirectTarget => "unsafe redirect target".toList
  | .redirectLimitExceeded => "redirect limit exceeded".toList
  | .redirectMissingLocation => "redirect missing location".toList
  | .invalidUrl => "Invalid URL".toList
  | .fetchFailed => "fetch failed".toList

section fetching
variable {urls : Urls.Library}

/-- What is looked at before a hop is fetched. -/
def isSafe (blockedHostname : Text) (current : urls.Url) : Bool :=
  let hostname := (urls.hostStr current).getD []
  !(urls.scheme current != "https".toList || !isPublicHlsProxyHostname hostname ||
    (!blockedHostname.isEmpty && toAsciiLowercase hostname == toAsciiLowercase blockedHostname))

def Answer.isRedirect (answer : Answer) : Bool := !(answer.status < 300 || answer.status ≥ 400)

/-- The URLs fetched from a hop on, and what comes of it. The upstreams answer a hop as they
like, or not at all. -/
def followRedirects (blockedHostname : Text) (answers : Nat → Option Answer) :
    Nat → Nat → urls.Url → List urls.Url × Except Failure Answer
  | remaining, redirects, current =>
    if !isSafe blockedHostname current then ([], .error .unsafeRedirectTarget)
    else
      match answers redirects with
      | none => ([current], .error .fetchFailed)
      | some response =>
        if !response.isRedirect then ([current], .ok response)
        else
          match remaining with
          | 0 => ([current], .error .redirectLimitExceeded)
          | remaining + 1 =>
            match response.location.filter fun location => !location.isEmpty with
            | none => ([current], .error .redirectMissingLocation)
            | some location =>
              match urls.join current location with
              | none => ([current], .error .invalidUrl)
              | some next =>
                let rest := followRedirects blockedHostname answers remaining (redirects + 1) next
                (current :: rest.1, rest.2)

def fetchWithSafeRedirects (blockedHostname : Text) (answers : Nat → Option Answer)
    (initialUrl : urls.Url) : List urls.Url × Except Failure Answer :=
  followRedirects blockedHostname answers maxUpstreamRedirects 0 initialUrl

/-- Where an answer sends the one who asked. -/
def Answer.target (current : urls.Url) (answer : Answer) : Option urls.Url :=
  if answer.isRedirect then
    (answer.location.filter fun location => !location.isEmpty).bind (urls.join current)
  else none

/-- The first hops the upstreams lead to, whoever follows. -/
def chain (answers : Nat → Option Answer) : Nat → Nat → urls.Url → List urls.Url
  | 0, _, _ => []
  | n + 1, redirects, current =>
    current :: ((answers redirects).bind (Answer.target current)).elim [] (chain answers n (redirects + 1))

/-- The hops that are fetched are those before the first unsafe one. -/
theorem followRedirects_fetched (blockedHostname : Text) (answers : Nat → Option Answer)
    (remaining redirects : Nat) (current : urls.Url) :
    (followRedirects blockedHostname answers remaining redirects current).1 =
      (chain answers (remaining + 1) redirects current).takeWhile (isSafe blockedHostname) := by
  induction remaining generalizing redirects current with
  | zero =>
    rw [followRedirects, chain, List.takeWhile_cons]
    cases hsafe : isSafe blockedHostname current with
    | false => rfl
    | true =>
      cases hanswer : answers redirects with
      | none => rfl
      | some answer =>
        cases hredirect : answer.isRedirect with
        | false => simp [hredirect, Answer.target]
        | true =>
          cases htarget : answer.target current with
          | none => simp [hredirect, htarget]
          | some next => simp [hredirect, htarget, chain]
  | succ remaining ih =>
    rw [followRedirects, chain, List.takeWhile_cons]
    cases hsafe : isSafe blockedHostname current with
    | false => rfl
    | true =>
      cases hanswer : answers redirects with
      | none => rfl
      | some answer =>
        cases hredirect : answer.isRedirect with
        | false => simp [hredirect, Answer.target]
        | true =>
          cases hlocation : answer.location.filter fun location => !location.isEmpty with
          | none => simp [hredirect, hlocation, Answer.target]
          | some location =>
            cases hjoin : urls.join current location with
            | none => simp [hredirect, hlocation, hjoin, Answer.target]
            | some next => simp [hredirect, hlocation, hjoin, Answer.target, ih]

end fetching

theorem jsTrim_eq_self {urls : Urls.Library} {url : urls.Url} {hostname : Text}
    (h : urls.hostStr url = some hostname) : jsTrim hostname = hostname := by
  refine trimWhile_eq_self fun c hc => ?_
  obtain ⟨hprint, hspace⟩ := urls.hostStr_printable url hostname h c hc
  simp only [isPrintable, Bool.and_eq_true, decide_eq_true_eq] at hprint
  have hne : c.toNat ≠ 0x20 := fun he => hspace (Char.toNat_inj.mp he)
  simp only [isJsWhitespace, isWhitespace, Bool.or_eq_false_iff, Bool.and_eq_false_iff,
    decide_eq_false_iff_not, beq_eq_false_iff_ne, bne_eq_false_iff_eq]
  omega

/-- A host the worker takes for public is the name of a public host, and no number. -/
theorem isPublicHlsProxyHostname_sound {urls : Urls.Library} (hosts : Urls.Hosts urls) {url : urls.Url}
    (hscheme : urls.scheme url = "https".toList)
    (h : isPublicHlsProxyHostname ((urls.hostStr url).getD []) = true) :
    ∃ name, hosts.host url = some (.domain name) ∧ urls.hostStr url = some name ∧ IsPublicName name := by
  obtain ⟨host, hhost⟩ := Option.isSome_iff_exists.mp (hosts.host_https url hscheme)
  have hvalue {hostname : Text} (hs : urls.hostStr url = some hostname) :
      toAsciiLowercase (trimEndDots (jsTrim hostname)) = canonicalName hostname := by
    rw [jsTrim_eq_self hs, canonicalName]
  unfold isPublicHlsProxyHostname at h
  dsimp only at h
  split at h
  · cases h
  · next hrefused =>
    simp only [Bool.or_eq_true, not_or, Bool.not_eq_true] at hrefused
    obtain ⟨⟨⟨⟨⟨⟨-, hcolon⟩, -⟩, hlocalhost⟩, hlocal⟩, hinternal⟩, hquad⟩ := hrefused
    cases host with
    | ipv4 a b c d =>
      have hs := hosts.hostStr_ipv4 url a b c d hhost
      rw [hs, Option.getD_some, hvalue hs, canonicalName_dotted, isDottedQuad_dotted] at hquad
      cases hquad
    | ipv6 address =>
      obtain ⟨groups, hs, hin⟩ := hosts.hostStr_ipv6 url address hhost
      have hmem : ':' ∈ canonicalName ('[' :: groups ++ [']']) :=
        mem_canonicalName (by decide) rfl (by simp [hin])
      rw [hs, Option.getD_some, hvalue hs, List.contains_eq_mem, decide_eq_false_iff_not] at hcolon
      exact absurd hmem hcolon
    | domain name =>
      have hs := hosts.hostStr_domain url name hhost
      rw [hs, Option.getD_some, hvalue hs] at hlocalhost hlocal hinternal h
      have hdot : '.' ∈ canonicalName name := by
        simp only [Bool.and_eq_true] at h
        simpa using h.1.1.1.1
      obtain ⟨hlen, hlast⟩ := exists_last_label hdot
      refine ⟨name, hhost, hs, hlen, fun top htop => ?_⟩
      have hsuffix {suffix : Text} (hfalse : endsWith (canonicalName name) suffix = false) :
          ¬ suffix <:+ canonicalName name := fun hin => by
        rw [endsWith, List.isSuffixOf_iff_suffix.mpr hin] at hfalse
        cases hfalse
      refine ⟨?_, ?_, ?_⟩
      · rintro rfl
        exact hsuffix hlocalhost (hlast _ htop)
      · rintro rfl
        exact hsuffix hlocal (hlast _ htop)
      · rintro rfl
        exact hsuffix hinternal (hlast _ htop)

section confinement
variable {urls : Urls.Library}

/-- What a hop has to be: a web address of a public host that is not the worker. -/
structure IsConfined (hosts : Urls.Hosts urls) (ownHostname : Text) (url : urls.Url) : Prop where
  https : urls.scheme url = "https".toList
  isPublic : ∃ name, hosts.host url = some (.domain name) ∧ IsPublicName name
  notOwn : ∀ hostname, urls.hostStr url = some hostname → canonicalName hostname ≠ canonicalName ownHostname

/-- The worker's own name, written with another number of dots at its end. -/
def IsOwnRespelled (ownHostname : Text) (url : urls.Url) : Prop :=
  ∃ hostname, urls.hostStr url = some hostname ∧
    canonicalName hostname = canonicalName ownHostname ∧
      toAsciiLowercase hostname ≠ toAsciiLowercase ownHostname

theorem chain_length_le (answers : Nat → Option Answer) (n redirects : Nat) (current : urls.Url) :
    (chain answers n redirects current).length ≤ n := by
  induction n generalizing redirects current with
  | zero => exact le_refl 0
  | succ n ih =>
    rw [chain, List.length_cons]
    cases (answers redirects).bind (Answer.target current) with
    | none => exact Nat.succ_le_succ (Nat.zero_le n)
    | some next => exact Nat.succ_le_succ (ih (redirects + 1) next)

theorem isConfined_iff (hosts : Urls.Hosts urls) {ownHostname : Text} {url : urls.Url}
    (h : isSafe ownHostname url = true) :
    IsConfined hosts ownHostname url ↔ ¬ IsOwnRespelled ownHostname url := by
  simp only [isSafe, Bool.not_eq_true', Bool.or_eq_false_iff, bne_eq_false_iff_eq, Bool.not_eq_false',
    Bool.and_eq_false_iff, beq_eq_false_iff_ne] at h
  obtain ⟨⟨hscheme, hpublic⟩, hown⟩ := h
  obtain ⟨name, hhost, hname, hpublicName⟩ := isPublicHlsProxyHostname_sound hosts hscheme hpublic
  rw [hname, Option.getD_some] at hown
  constructor
  · rintro ⟨-, -, hnot⟩ ⟨hostname, hs, hsame, -⟩
    exact hnot hostname hs hsame
  · refine fun hnot => ⟨hscheme, ⟨name, hhost, hpublicName⟩, fun hostname hs hsame => ?_⟩
    obtain rfl := Option.some.inj (hname.symm.trans hs)
    cases hown with
    | inl hempty =>
      -- an empty name has one label
      have hlabels : labels name = [[]] := by
        rw [labels, hsame, List.isEmpty_iff.mp hempty]
        rfl
      have hlen := hpublicName.1
      rw [hlabels] at hlen
      exact absurd hlen (by decide)
    | inr hne => exact hnot ⟨name, hs, hsame, hne⟩

/-- However the upstreams answer, every hop that is fetched is a public web address off the
worker and no more than four are fetched, unless one spells the worker's name otherwise. -/
theorem fetches_confined_iff (hosts : Urls.Hosts urls) (ownHostname : Text)
    (answers : Nat → Option Answer) (initialUrl : urls.Url) :
    ((∀ url ∈ (fetchWithSafeRedirects ownHostname answers initialUrl).1,
        IsConfined hosts ownHostname url) ∧
      (fetchWithSafeRedirects ownHostname answers initialUrl).1.length ≤ 4) ↔
      ∀ url ∈ (chain answers 4 0 initialUrl).takeWhile (isSafe ownHostname),
        ¬ IsOwnRespelled ownHostname url := by
  have hfetched : (fetchWithSafeRedirects ownHostname answers initialUrl).1 =
      (chain answers 4 0 initialUrl).takeWhile (isSafe ownHostname) :=
    followRedirects_fetched ownHostname answers 3 0 initialUrl
  have hlen : ((chain answers 4 0 initialUrl).takeWhile (isSafe ownHostname)).length ≤ 4 :=
    (List.takeWhile_prefix _).length_le.trans (chain_length_le answers 4 0 initialUrl)
  rw [hfetched]
  constructor
  · rintro ⟨hall, -⟩ url hurl
    exact (isConfined_iff hosts (List.mem_takeWhile_imp hurl)).mp (hall url hurl)
  · intro hnone
    exact ⟨fun url hurl => (isConfined_iff hosts (List.mem_takeWhile_imp hurl)).mpr (hnone url hurl), hlen⟩

end confinement

/-- With a dot at the end of its name the worker fetches from itself. -/
theorem own_host_fetched :
    ¬ ∀ url ∈ (fetchWithSafeRedirects "worker.example.com".toList (fun _ => some ⟨200, none⟩)
        (plainUrl "https://worker.example.com./seg.ts".toList (by decide +kernel))).1,
      IsConfined plainHosts "worker.example.com".toList url := by
  intro h
  have hsafe : isSafe "worker.example.com".toList
      (plainUrl "https://worker.example.com./seg.ts".toList (by decide +kernel)) = true := by
    decide +kernel
  have hconfined := h (plainUrl "https://worker.example.com./seg.ts".toList (by decide +kernel)) (by
    rw [fetchWithSafeRedirects, followRedirects_fetched, chain, List.takeWhile_cons_of_pos hsafe]
    exact List.mem_cons_self)
  exact hconfined.notOwn "worker.example.com.".toList (by decide +kernel) (by decide +kernel)

end StreamArena.LiveHls.WorkerEgress
