import StreamArena.Library.HttpCaching
import StreamArena.LiveHls.Worker

/-! How long the segment worker lets a browser keep a response (cache-policy.js), against
the grant it was fetched under and the freshness its origin gave it. -/
namespace StreamArena.LiveHls.WorkerCache
open AsciiText Decimal HttpCaching
open Worker (isJsWhitespace jsTrim maxSafeInteger safeInteger SignedTarget)

/-- The answers a grant admits to, each with its time to live. -/
inductive Route where
  | segment
  | vodSegment
  | vodPlaylist

def Route.ttl : Route → Int
  | .segment => 20
  | .vodSegment => 3600
  | .vodPlaylist => 300

inductive CacheControl where
  | noStore
  | maxAge (seconds : Int)
  deriving DecidableEq

def CacheControl.text : CacheControl → Text
  | .noStore => "no-store".toList
  | .maxAge seconds => "public, max-age=".toList ++ decimalText seconds

structure Upstream where
  status : Nat
  headers : Headers

def Upstream.ok (upstream : Upstream) : Bool := 200 ≤ upstream.status && upstream.status ≤ 299

def isSafeInteger (n : Int) : Bool := n.natAbs ≤ maxSafeInteger

/-- A class of its own in a regular expression: letters, digits and the underscore. -/
def isWordChar (c : Char) : Bool := c.isAlphanum || c == '_'

/-- A word of a text in any case, whose ends are ends of a word of the text. -/
def hasWord (word : Text) : Bool → Text → Bool
  | _, [] => false
  | inWord, c :: s =>
    (!inWord && startsWith (toAsciiLowercase (c :: s)) word &&
      !((c :: s).drop word.length).head?.any isWordChar) || hasWord word (isWordChar c) s

def forbidsCaching (policy : Text) : Bool :=
  hasWord "private".toList false policy || hasWord "no-store".toList false policy ||
    hasWord "no-cache".toList false policy

def entries (policy : Text) : List Text := (policy.splitOn ',').map jsTrim

def entryName (entry : Text) : Text := toAsciiLowercase (jsTrim (entry.takeWhile (· != '=')))

/-- The number behind the equals sign, in quotes or not. -/
def entrySeconds (entry : Text) : Option Nat :=
  if (entry.takeWhile (· != '=')).isEmpty then none
  else deltaSeconds ((entry.dropWhile (· != '=')).tail.dropWhile isJsWhitespace)

/-- One entry of a name counts, two count for nothing. -/
def directive (policy name : Text) : Option Int :=
  match (entries policy).filter fun entry => entryName entry == name with
  | [] => none
  | [entry] => some (((entrySeconds entry).filter (· ≤ maxSafeInteger)).getD 0)
  | _ => some 0

/-- The lower of the two lifetimes that are given. -/
def lifetime (policy : Text) : Option Int :=
  ([directive policy "max-age".toList, directive policy "s-maxage".toList].filterMap id).min?

section policy
variable {urls : Urls.Library} (searchParams : urls.Url → List (Text × Text))
variable (parseDate : Text → Option Int)

/-- When a grant ends, and before that the tokens of its target. -/
def deadline (authorization : SignedTarget urls) (expiresAt : Int) : Int :=
  (["expires".toList, "exp".toList, "expiry".toList].filterMap fun key =>
    ((searchParams authorization.target).lookup key).bind safeInteger).foldl min expiresAt

def boundedCacheTtl (authorization : SignedTarget urls) (ttl now : Int) : Int :=
  match authorization.expiresAt.filter isSafeInteger with
  | none => 0
  | some expiresAt => max 0 (min ttl (deadline searchParams authorization expiresAt - now))

/-- The seconds an upstream's explicit limit leaves, if it has one. -/
def upstreamFreshnessTtl (headers : Headers) (now : Int) : Option Int :=
  let policy := (value headers "cache-control".toList).getD []
  if forbidsCaching policy then some 0
  else
    let rawExpires := value headers "expires".toList
    if (lifetime policy).isNone && rawExpires.isNone then none
    else
      match (ageSeconds headers).filter (· ≤ maxSafeInteger) with
      | none => some 0
      | some age =>
        match dateSeconds parseDate headers now with
        | none => some 0
        | some date =>
          let apparentAge := max 0 (max (now - date) age)
          match lifetime policy with
          | some lifetime => some (max 0 (lifetime - apparentAge))
          | none =>
            match rawExpires.bind parseDate with
            | some expires => some (max 0 (expires / 1000 - date - apparentAge))
            | none => some 0

def responseCacheControl (upstream : Upstream) (ttl now : Int) (requestHeaders : Headers) : CacheControl :=
  let policy := (value upstream.headers "cache-control".toList).getD []
  if !upstream.ok || decide (ttl ≤ 0) || upstream.status == 206 ||
      (value requestHeaders "range".toList).isSome || forbidsCaching policy then .noStore
  else
    let remaining :=
      match upstreamFreshnessTtl parseDate upstream.headers now with
      | none => ttl
      | some upstreamTtl => min ttl upstreamTtl
    if remaining > 0 then .maxAge remaining else .noStore

/-- What the worker tells a browser about the answer to an admitted request. -/
def cacheControl (route : Route) (authorization : SignedTarget urls) (upstream : Upstream)
    (requestHeaders : Headers) (now : Int) : CacheControl :=
  responseCacheControl parseDate upstream (boundedCacheTtl searchParams authorization route.ttl now) now
    requestHeaders

end policy

theorem spaces : isJsWhitespace '=' = false ∧ isJsWhitespace ',' = false ∧ isJsWhitespace '"' = false := by
  decide

theorem not_isWordChar_of_isJsWhitespace {c : Char} (h : isJsWhitespace c = true) :
    isWordChar c = false := by
  simp only [isJsWhitespace, isWhitespace, Bool.or_eq_true, Bool.and_eq_true, decide_eq_true_eq,
    beq_iff_eq, bne_iff_ne] at h
  simp only [isWordChar, Char.isAlphanum, Char.isAlpha, Char.isUpper, Char.isLower, Char.isDigit,
    Bool.or_eq_false_iff, Bool.and_eq_false_iff, decide_eq_false_iff_not, ge_iff_le, UInt32.le_iff_toNat_le,
    beq_eq_false_iff_ne]
  have hval : c.val.toNat = c.toNat := rfl
  refine ⟨⟨⟨?_, ?_⟩, ?_⟩, ?_⟩
  · rw [hval, show ('A'.val).toNat = 65 from rfl, show ('Z'.val).toNat = 90 from rfl]
    omega
  · rw [hval, show ('a'.val).toNat = 97 from rfl, show ('z'.val).toNat = 122 from rfl]
    omega
  · rw [hval, show ('0'.val).toNat = 48 from rfl, show ('9'.val).toNat = 57 from rfl]
    omega
  · rintro rfl
    revert h
    decide

/-- A word between other characters is found. -/
theorem hasWord_append {word a n b : Text} (hword : word ≠ []) (hn : toAsciiLowercase n = word)
    (hlast : ∀ c, a.getLast? = some c → isWordChar c = false)
    (hb : ∀ c, b.head? = some c → isWordChar c = false) {inWord : Bool}
    (ha : a = [] → inWord = false) : hasWord word inWord (a ++ n ++ b) = true := by
  induction a generalizing inWord with
  | nil =>
    cases n with
    | nil => exact absurd hn.symm hword
    | cons c n =>
      have hlen : word.length = (c :: n).length := by rw [← hn, toAsciiLowercase, List.length_map]
      have hstart : startsWith (toAsciiLowercase (c :: (n ++ b))) word = true := by
        rw [startsWith_iff, ← List.cons_append, toAsciiLowercase_append, hn]
        exact List.prefix_append word _
      have hend : ((c :: (n ++ b)).drop word.length).head?.any isWordChar = false := by
        rw [hlen, ← List.cons_append, List.drop_left]
        cases hhead : b.head? with
        | none => rfl
        | some d => exact hb d hhead
      rw [List.nil_append, List.cons_append, hasWord, ha rfl, hstart, hend]
      rfl
  | cons c a ih =>
    have htail : hasWord word (isWordChar c) (a ++ n ++ b) = true := by
      refine ih (fun d hd => hlast d ?_) ?_
      · rw [List.getLast?_cons, hd]
        rfl
      · rintro rfl
        exact hlast c rfl
    rw [List.cons_append, List.cons_append, hasWord, htail, Bool.or_true]

/-- The word of a directive is found. -/
theorem hasWord_of_directive {policy m word : Text} (hm : m ∈ directives policy)
    (hname : name isJsWhitespace m = word) (hword : word ≠ []) (hplain : IsPlainName word) :
    hasWord word false policy = true := by
  obtain ⟨piece, hpiece, hsame, -⟩ := exists_piece spaces hm (hname ▸ hplain)
  obtain ⟨a, b, hpolicy, ha, hb⟩ := exists_context hpiece
  obtain ⟨a', n, b', hsplit, hn, ha', hb'⟩ := exists_name spaces.1 piece
  have hwhole : policy = (a ++ a') ++ n ++ (b' ++ b) := by rw [hpolicy, hsplit]; simp
  rw [hwhole]
  refine hasWord_append hword (hn.trans (hsame.trans hname)) (fun c hc => ?_) (fun c hc => ?_)
    fun _ => rfl
  · cases a' using List.reverseRecOn with
    | nil =>
      rw [List.append_nil] at hc
      rw [ha c hc]
      decide
    | append_singleton a' d =>
      rw [← List.append_assoc, List.getLast?_concat] at hc
      exact not_isWordChar_of_isJsWhitespace (ha' c (by simp [Option.some.inj hc]))
  · cases b' with
    | nil =>
      rw [hb c hc]
      decide
    | cons d b' =>
      cases hb' c hc with
      | inl hspace => exact not_isWordChar_of_isJsWhitespace hspace
      | inr heq => rw [heq]; decide

theorem entrySeconds_jsTrim (piece : Text) : entrySeconds (jsTrim piece) = none ∨
    entrySeconds (jsTrim piece) = seconds isJsWhitespace piece := by
  unfold entrySeconds
  split
  · exact Or.inl rfl
  · exact Or.inr rfl

/-- The worker allows a directive no more than it says. -/
theorem directive_le {policy m name : Text} (hm : m ∈ directives policy)
    (hname : HttpCaching.name isJsWhitespace m = name) (hplain : IsPlainName name) :
    ∃ x, directive policy name = some x ∧ x ≤ ((seconds isJsWhitespace m).getD 0 : Nat) := by
  obtain ⟨piece, hpiece, hsame, hseconds⟩ := exists_piece spaces hm (hname ▸ hplain)
  have hentry : jsTrim piece ∈ (entries policy).filter fun entry => entryName entry == name :=
    List.mem_filter.mpr ⟨List.mem_map_of_mem hpiece, beq_iff_eq.mpr (hsame.trans hname)⟩
  have hle : (((entrySeconds (jsTrim piece)).filter (· ≤ maxSafeInteger)).getD 0 : Nat) ≤
      (seconds isJsWhitespace m).getD 0 := by
    have hcases : entrySeconds (jsTrim piece) = none ∨
        entrySeconds (jsTrim piece) = seconds isJsWhitespace m := by
      cases entrySeconds_jsTrim piece with
      | inl hnone => exact Or.inl hnone
      | inr heq =>
        cases hseconds with
        | inl hpm => exact Or.inr (hpm ▸ heq)
        | inr hnone => exact Or.inl (heq.trans hnone)
    cases hcases with
    | inl hnone => simp [hnone]
    | inr heq =>
      rw [heq]
      cases seconds isJsWhitespace m with
      | none => exact le_rfl
      | some n =>
        rw [Option.filter_some]
        split
        · exact le_rfl
        · exact Nat.zero_le n
  unfold directive
  split
  · next hnil => rw [hnil] at hentry; cases hentry
  · next entry hone =>
    rw [hone, List.mem_singleton] at hentry
    rw [← hentry]
    exact ⟨_, rfl, by exact_mod_cast hle⟩
  · exact ⟨0, rfl, Int.natCast_nonneg _⟩

theorem lifetime_le {policy : Text} {x : Nat} (h : x ∈ lifetimes isJsWhitespace policy) :
    ∃ l, lifetime policy = some l ∧ l ≤ x := by
  obtain ⟨m, hm, rfl⟩ := List.mem_map.mp h
  obtain ⟨hm, hname⟩ := List.mem_filter.mp hm
  rw [Bool.or_eq_true, beq_iff_eq, beq_iff_eq] at hname
  have hle {n : Text} {y : Int} (hn : n = "max-age".toList ∨ n = "s-maxage".toList)
      (hy : directive policy n = some y) : ∃ l, lifetime policy = some l ∧ l ≤ y := by
    have hmem : y ∈ [directive policy "max-age".toList, directive policy "s-maxage".toList].filterMap id := by
      refine List.mem_filterMap.mpr ⟨some y, ?_, rfl⟩
      rw [← hy]
      rcases hn with rfl | rfl
      · exact List.mem_cons_self
      · exact List.mem_cons_of_mem _ List.mem_cons_self
    cases hl : lifetime policy with
    | none => rw [List.min?_eq_none_iff.mp hl] at hmem; cases hmem
    | some l => exact ⟨l, rfl, (List.min?_eq_some_iff.mp hl).2 y hmem⟩
  rcases hname with hname | hname
  · obtain ⟨y, hy, hyx⟩ := directive_le hm hname ⟨by decide, by decide⟩
    obtain ⟨l, hl, hly⟩ := hle (Or.inl rfl) hy
    exact ⟨l, hl, hly.trans hyx⟩
  · obtain ⟨y, hy, hyx⟩ := directive_le hm hname ⟨by decide, by decide⟩
    obtain ⟨l, hl, hly⟩ := hle (Or.inr rfl) hy
    exact ⟨l, hl, hly.trans hyx⟩

section freshness
variable {urls : Urls.Library} {searchParams : urls.Url → List (Text × Text)}
variable {parseDate : Text → Option Int}

def policyOf (headers : Headers) : Text := (value headers "cache-control".toList).getD []

/-- The age of a response, where the worker can read it. -/
def readAge (parseDate : Text → Option Int) (headers : Headers) (now : Int) : Option Int :=
  ((ageSeconds headers).filter (· ≤ maxSafeInteger)).bind fun _ => currentAge parseDate headers now

theorem upstreamFreshnessTtl_of_lifetime (parseDate : Text → Option Int) {headers : Headers} (now : Int) {l : Int}
    (hpolicy : forbidsCaching (policyOf headers) = false) (hl : lifetime (policyOf headers) = some l) :
    upstreamFreshnessTtl parseDate headers now =
      some (((readAge parseDate headers now).map fun age => max 0 (l - age)).getD 0) := by
  unfold policyOf at hpolicy hl
  unfold upstreamFreshnessTtl readAge currentAge
  simp only [hpolicy, hl, Option.isNone_some, Bool.false_and, Bool.false_eq_true, if_false]
  cases hread : (ageSeconds headers).filter (· ≤ maxSafeInteger) with
  | none => rfl
  | some age =>
    rw [(Option.filter_eq_some_iff.mp hread).1]
    cases dateSeconds parseDate headers now <;> rfl

theorem upstreamFreshnessTtl_of_expires {headers : Headers} {now : Int} {text : Text}
    (hpolicy : forbidsCaching (policyOf headers) = false) (hl : lifetime (policyOf headers) = none)
    (hexpires : value headers "expires".toList = some text) :
    upstreamFreshnessTtl parseDate headers now =
      some (((readAge parseDate headers now).bind fun age => (parseDate text).bind fun expires =>
        (dateSeconds parseDate headers now).map fun date => max 0 (expires / 1000 - date - age)).getD 0) := by
  unfold policyOf at hpolicy hl
  unfold upstreamFreshnessTtl readAge currentAge
  simp only [hpolicy, hl, hexpires, Option.isNone_some, Bool.and_false, Bool.false_eq_true, if_false]
  cases hread : (ageSeconds headers).filter (· ≤ maxSafeInteger) with
  | none => rfl
  | some age =>
    rw [(Option.filter_eq_some_iff.mp hread).1]
    cases dateSeconds parseDate headers now with
    | none => cases parseDate text <;> rfl
    | some date => cases hparse : parseDate text <;> simp [hparse]

theorem readAge_eq_some {headers : Headers} {now age : Int}
    (h : readAge parseDate headers now = some age) : currentAge parseDate headers now = some age := by
  obtain ⟨_, _, hage⟩ := Option.bind_eq_some_iff.mp h
  exact hage

/-- A lifetime that stands in no directive, which the worker takes for one. -/
def strayLifetime (headers : Headers) : Option Int :=
  if lifetimes isJsWhitespace (policyOf headers) = [] then lifetime (policyOf headers) else none

/-- What is left by the worker's reading is left, unless it reads a stray lifetime. -/
theorem upstreamFreshnessTtl_le {headers : Headers} {now fresh : Int}
    (hpolicy : forbidsCaching (policyOf headers) = false)
    (hfresh : explicitFreshness isJsWhitespace parseDate headers now = some fresh) :
    ∃ ttl, upstreamFreshnessTtl parseDate headers now = some ttl ∧
      (0 < ttl → ttl ≤ fresh ∨ ∃ l age, strayLifetime headers = some l ∧
        readAge parseDate headers now = some age ∧ ttl = l - age) := by
  unfold explicitFreshness at hfresh
  unfold strayLifetime
  split at hfresh
  · next x hx =>
    obtain ⟨l, hl, hle⟩ := lifetime_le (List.min?_eq_some_iff.mp hx).1
    refine ⟨_, upstreamFreshnessTtl_of_lifetime parseDate now hpolicy hl, fun hpos => Or.inl ?_⟩
    cases hage : readAge parseDate headers now with
    | none => rw [hage] at hpos; exact absurd hpos (lt_irrefl 0)
    | some age =>
      rw [readAge_eq_some hage] at hfresh
      rw [hage] at hpos
      simp only [Option.map_some, Option.getD_some, Option.some.injEq] at hfresh hpos ⊢
      omega
  · next hnone =>
    have hbare : lifetimes isJsWhitespace (policyOf headers) = [] := List.min?_eq_none_iff.mp hnone
    rw [if_pos hbare]
    obtain ⟨text, hexpires, hfresh⟩ := Option.map_eq_some_iff.mp hfresh
    cases hl : lifetime (policyOf headers) with
    | none =>
      refine ⟨_, upstreamFreshnessTtl_of_expires hpolicy hl hexpires, fun hpos => Or.inl ?_⟩
      cases hage : readAge parseDate headers now with
      | none => rw [hage] at hpos; exact absurd hpos (lt_irrefl 0)
      | some age =>
        rw [readAge_eq_some hage] at hfresh
        rw [hage] at hpos
        cases hparse : parseDate text with
        | none => rw [hparse] at hpos; exact absurd hpos (lt_irrefl 0)
        | some expires =>
          cases hdate : dateSeconds parseDate headers now with
          | none => rw [hparse, hdate] at hpos; exact absurd hpos (lt_irrefl 0)
          | some date =>
            rw [hparse, hdate] at hfresh hpos
            simp only [Option.bind_some, Option.map_some, Option.getD_some] at hfresh hpos ⊢
            omega
    | some l =>
      refine ⟨_, upstreamFreshnessTtl_of_lifetime parseDate now hpolicy hl, fun hpos => Or.inr ?_⟩
      cases hage : readAge parseDate headers now with
      | none => rw [hage] at hpos; exact absurd hpos (lt_irrefl 0)
      | some age =>
        rw [hage] at hpos
        refine ⟨l, age, rfl, rfl, ?_⟩
        simp only [Option.map_some, Option.getD_some] at hpos ⊢
        omega

/-- A whole answer of the origin to a whole request, with no word against caching it. -/
structure Admitted (upstream : Upstream) (requestHeaders : Headers) : Prop where
  ok : upstream.ok = true
  whole : upstream.status ≠ 206
  unranged : value requestHeaders "range".toList = none
  policy : forbidsCaching (policyOf upstream.headers) = false

theorem responseCacheControl_eq_maxAge_iff {upstream : Upstream} {requestHeaders : Headers}
    {ttl now seconds : Int} :
    responseCacheControl parseDate upstream ttl now requestHeaders = .maxAge seconds ↔
      Admitted upstream requestHeaders ∧ 0 < seconds ∧
        seconds = (upstreamFreshnessTtl parseDate upstream.headers now).elim ttl (min ttl) := by
  have hremaining : (match upstreamFreshnessTtl parseDate upstream.headers now with
      | none => ttl
      | some upstreamTtl => min ttl upstreamTtl) =
      (upstreamFreshnessTtl parseDate upstream.headers now).elim ttl (min ttl) := by
    cases upstreamFreshnessTtl parseDate upstream.headers now <;> rfl
  unfold responseCacheControl
  rw [hremaining]
  generalize hm : (upstreamFreshnessTtl parseDate upstream.headers now).elim ttl (min ttl) = remaining
  have hle : remaining ≤ ttl := by
    rw [← hm]
    cases upstreamFreshnessTtl parseDate upstream.headers now with
    | none => exact le_rfl
    | some upstreamTtl => exact min_le_left ttl upstreamTtl
  constructor
  · intro h
    dsimp only at h
    split at h
    · cases h
    · next hadmit =>
      simp only [Bool.or_eq_true, not_or, Bool.not_eq_true, Bool.not_eq_false', decide_eq_false_iff_not,
        beq_eq_false_iff_ne, Option.isSome_eq_false_iff, Option.isNone_iff_eq_none] at hadmit
      obtain ⟨⟨⟨⟨hok, -⟩, hwhole⟩, hrange⟩, hpolicy⟩ := hadmit
      split at h
      · next hpos =>
        obtain rfl := CacheControl.maxAge.inj h
        exact ⟨⟨hok, hwhole, hrange, hpolicy⟩, hpos, rfl⟩
      · cases h
  · rintro ⟨⟨hok, hwhole, hrange, hpolicy⟩, hpos, rfl⟩
    unfold policyOf at hpolicy
    dsimp only
    rw [hok, hpolicy, hrange, decide_eq_false (not_le.mpr (hpos.trans_le hle)), beq_false_of_ne hwhole]
    exact if_pos hpos

/-- When and how long the worker lets a response be kept. -/
theorem cacheControl_eq_maxAge_iff {route : Route} {authorization : SignedTarget urls}
    {upstream : Upstream} {requestHeaders : Headers} {now seconds : Int} :
    cacheControl searchParams parseDate route authorization upstream requestHeaders now = .maxAge seconds ↔
      Admitted upstream requestHeaders ∧ 0 < seconds ∧ ∃ expiresAt, authorization.expiresAt = some expiresAt ∧
        isSafeInteger expiresAt = true ∧ seconds =
          (upstreamFreshnessTtl parseDate upstream.headers now).elim
            (min route.ttl (deadline searchParams authorization expiresAt - now))
            (min (min route.ttl (deadline searchParams authorization expiresAt - now))) := by
  rw [cacheControl, responseCacheControl_eq_maxAge_iff]
  refine and_congr_right fun _ => and_congr_right fun hpos => ?_
  cases hexpires : authorization.expiresAt.filter isSafeInteger with
  | none =>
    rw [boundedCacheTtl, hexpires]
    constructor
    · intro h
      dsimp only at h
      cases hfresh : upstreamFreshnessTtl parseDate upstream.headers now with
      | none => rw [hfresh, Option.elim_none] at h; omega
      | some ttl => rw [hfresh, Option.elim_some] at h; omega
    · rintro ⟨expiresAt, hsome, hsafe, -⟩
      rw [hsome, Option.filter_some_pos hsafe] at hexpires
      cases hexpires
  | some expiresAt =>
    obtain ⟨hsome, hsafe⟩ := Option.filter_eq_some_iff.mp hexpires
    rw [boundedCacheTtl, hexpires]
    have hclamp {ttl : Int} : seconds = (upstreamFreshnessTtl parseDate upstream.headers now).elim
        (max 0 ttl) (min (max 0 ttl)) ↔
        seconds = (upstreamFreshnessTtl parseDate upstream.headers now).elim ttl (min ttl) := by
      cases upstreamFreshnessTtl parseDate upstream.headers now with
      | none => rw [Option.elim_none, Option.elim_none]; omega
      | some upstreamTtl => rw [Option.elim_some, Option.elim_some]; omega
    rw [hclamp]
    constructor
    · exact fun h => ⟨expiresAt, hsome, hsafe, h⟩
    · rintro ⟨expiresAt', hsome', -, h⟩
      rwa [Option.some.inj (hsome.symm.trans hsome')]

/-- What a time to live keeps to: the route, the grant, the origin's own limit, and no
answer that is private, part of a whole or asked for in part. -/
structure Respects (searchParams : urls.Url → List (Text × Text)) (parseDate : Text → Option Int)
    (route : Route) (authorization : SignedTarget urls) (upstream : Upstream) (requestHeaders : Headers)
    (now seconds : Int) : Prop where
  route : seconds ≤ route.ttl
  grant : ∃ expiresAt, authorization.expiresAt = some expiresAt ∧ seconds ≤ expiresAt - now
  origin : ∀ fresh, explicitFreshness isJsWhitespace parseDate upstream.headers now = some fresh →
    seconds ≤ fresh
  shared : ∀ member ∈ directives (policyOf upstream.headers),
    name isJsWhitespace member ≠ "private".toList ∧ name isJsWhitespace member ≠ "no-store".toList
  whole : upstream.status ≠ 206
  unranged : value requestHeaders "range".toList = none

/-- A lifetime that stands in no directive lasts longer than the date of expiry allows. -/
def StrayLifetimeOutlives (searchParams : urls.Url → List (Text × Text))
    (parseDate : Text → Option Int) (route : Route) (authorization : SignedTarget urls)
    (upstream : Upstream) (requestHeaders : Headers) (now : Int) : Prop :=
  Admitted upstream requestHeaders ∧ ∃ lifetime age fresh expiresAt,
    strayLifetime upstream.headers = some lifetime ∧
    readAge parseDate upstream.headers now = some age ∧
    explicitFreshness isJsWhitespace parseDate upstream.headers now = some fresh ∧
    authorization.expiresAt = some expiresAt ∧ isSafeInteger expiresAt = true ∧
    max 0 fresh < route.ttl ∧ max 0 fresh < deadline searchParams authorization expiresAt - now ∧
    max 0 fresh < lifetime - age

theorem foldl_min_le (l : List Int) (x : Int) : l.foldl min x ≤ x := by
  induction l generalizing x with
  | nil => exact le_rfl
  | cons y l ih => exact (ih (min x y)).trans (min_le_left x y)

theorem strayLifetime_eq_some {headers : Headers} {l : Int} (h : strayLifetime headers = some l) :
    lifetime (policyOf headers) = some l := by
  unfold strayLifetime at h
  split at h
  · exact h
  · cases h

/-- Every response the worker lets a browser keep is kept within its limits, unless a
lifetime between the quotes of another directive is taken for one of its own. -/
theorem cacheControl_respects_iff (searchParams : urls.Url → List (Text × Text))
    (parseDate : Text → Option Int) (route : Route) (authorization : SignedTarget urls)
    (upstream : Upstream) (requestHeaders : Headers) (now : Int) :
    (∀ seconds, cacheControl searchParams parseDate route authorization upstream requestHeaders now =
        .maxAge seconds →
      Respects searchParams parseDate route authorization upstream requestHeaders now seconds) ↔
      ¬ StrayLifetimeOutlives searchParams parseDate route authorization upstream requestHeaders now := by
  constructor
  · rintro h ⟨hadmitted, l, age, fresh, expiresAt, hstray, hage, hfresh, hsome, hsafe, hroute, hgrant, hlong⟩
    have httl := upstreamFreshnessTtl_of_lifetime parseDate now hadmitted.policy (strayLifetime_eq_some hstray)
    rw [hage, Option.map_some, Option.getD_some] at httl
    have hkept : cacheControl searchParams parseDate route authorization upstream requestHeaders now =
        .maxAge (min (min route.ttl (deadline searchParams authorization expiresAt - now))
          (max 0 (l - age))) := by
      refine cacheControl_eq_maxAge_iff.mpr ⟨hadmitted, by omega, expiresAt, hsome, hsafe, ?_⟩
      rw [httl, Option.elim_some]
    have hle := (h _ hkept).origin fresh hfresh
    omega
  · intro hnot seconds hkept
    obtain ⟨hadmitted, hpos, expiresAt, hsome, hsafe, hseconds⟩ := cacheControl_eq_maxAge_iff.mp hkept
    have hdeadline : deadline searchParams authorization expiresAt ≤ expiresAt := foldl_min_le _ _
    have hleft : seconds ≤ min route.ttl (deadline searchParams authorization expiresAt - now) := by
      cases httl : upstreamFreshnessTtl parseDate upstream.headers now with
      | none => rw [httl] at hseconds; exact le_of_eq hseconds
      | some ttl => rw [httl] at hseconds; exact hseconds.trans_le (min_le_left _ _)
    have hroute : seconds ≤ route.ttl := by omega
    have hgrant : seconds ≤ expiresAt - now := by omega
    refine ⟨hroute, ⟨expiresAt, hsome, hgrant⟩, fun fresh hfresh => ?_, fun member hmember => ?_,
      hadmitted.whole, hadmitted.unranged⟩
    · obtain ⟨ttl, httl, hwithin⟩ := upstreamFreshnessTtl_le hadmitted.policy hfresh
      rw [httl, Option.elim_some] at hseconds
      rcases hwithin (by omega) with hle | ⟨l, age, hstray, hage, hstrayTtl⟩
      · omega
      · by_contra hover
        have hfreshLt : max 0 fresh < seconds := max_lt hpos (not_le.mp hover)
        have hstrayLe : seconds ≤ l - age := hstrayTtl ▸ hseconds ▸ min_le_right _ ttl
        exact hnot ⟨hadmitted, l, age, fresh, expiresAt, hstray, hage, hfresh, hsome, hsafe,
          hfreshLt.trans_le hroute, hfreshLt.trans_le (hleft.trans (min_le_right _ _)),
          hfreshLt.trans_le hstrayLe⟩
    · have hpolicy := hadmitted.policy
      simp only [forbidsCaching, Bool.or_eq_false_iff] at hpolicy
      have hword {word : Text} (hfalse : hasWord word false (policyOf upstream.headers) = false)
          (hword : word ≠ []) (hplain : IsPlainName word) : name isJsWhitespace member ≠ word := fun hname => by
        rw [hasWord_of_directive hmember hname hword hplain] at hfalse
        cases hfalse
      exact ⟨hword hpolicy.1.1 (by decide) ⟨by decide, by decide⟩,
        hword hpolicy.1.2 (by decide) ⟨by decide, by decide⟩⟩

end freshness

/-- Ten seconds before it expires a response is kept for a thousand. -/
theorem quoted_lifetime_outlives_expires :
    ¬ ∀ seconds, cacheControl (fun _ => [])
        (fun text => if text = "Thu, 01 Jan 1970 00:20:10 GMT".toList then some 1210000 else none)
        .vodSegment (⟨⟨"https://cdn.example.com/seg.ts".toList, by decide +kernel⟩, [], some 9000⟩ :
          SignedTarget Urls.plain)
        ⟨200, [("cache-control".toList, "ext=\"a, max-age=1000, b\"".toList),
          ("expires".toList, "Thu, 01 Jan 1970 00:20:10 GMT".toList)]⟩ [] 1200 = .maxAge seconds →
      Respects (fun _ => [])
        (fun text => if text = "Thu, 01 Jan 1970 00:20:10 GMT".toList then some 1210000 else none)
        .vodSegment (⟨⟨"https://cdn.example.com/seg.ts".toList, by decide +kernel⟩, [], some 9000⟩ :
          SignedTarget Urls.plain)
        ⟨200, [("cache-control".toList, "ext=\"a, max-age=1000, b\"".toList),
          ("expires".toList, "Thu, 01 Jan 1970 00:20:10 GMT".toList)]⟩ [] 1200 seconds := by
  intro h
  have hkept := h 1000 (by decide +kernel)
  have hle := hkept.origin 10 (by decide +kernel)
  omega

end StreamArena.LiveHls.WorkerCache
