import Mathlib
import StreamArena.Library.Aead

/-! From the path of a request to the file it names, and whether that file is private
(src/src/static_files.rs): decoding, normalization, and the two decisions on the same path. -/
namespace StreamArena.Routes
open AsciiText Aead

inductive Component where
  | rootDir
  | curDir
  | parentDir
  | normal (name : Text)
  deriving DecidableEq

abbrev Path := List Component

/-- The components of a path: repeated slashes and inner dots are none. -/
def components (path : Text) : Path :=
  let pieces := path.splitOn '/'
  let head := if path.head? = some '/' then [Component.rootDir] else if pieces.head? = some ['.'] then [.curDir] else []
  head ++ pieces.filterMap fun piece =>
    if piece = [] ∨ piece = ['.'] then none else if piece = ['.', '.'] then some .parentDir else some (.normal piece)

/-- What is left of `..` and `.` where the names before them are taken at their word. -/
def lexicallyNormalized (path : Path) : Path :=
  path.foldl (fun before component => match component, before.getLast? with
    | .curDir, _ => before
    | .parentDir, some (.normal _) => before.dropLast
    | .parentDir, some .rootDir => before
    | component, _ => before ++ [component]) []

def join (directory : Path) (names : List Text) : Path := directory ++ names.map .normal

def hexDigit (byte : UInt8) : Option Nat :=
  let n := byte.toNat
  if 48 ≤ n ∧ n ≤ 57 then some (n - 48)
  else if 65 ≤ n ∧ n ≤ 70 then some (n - 55)
  else if 97 ≤ n ∧ n ≤ 102 then some (n - 87)
  else none

/-- Two hexadecimal digits, or one after a plus sign. -/
def hexByte (high low : UInt8) : Option UInt8 :=
  if high = 43 then (hexDigit low).map UInt8.ofNat
  else (hexDigit high).bind fun h => (hexDigit low).map fun l => .ofNat (16 * h + l)

def decodeBytes : Bytes → Option Bytes
  | [] => some []
  | 37 :: high :: low :: rest => (hexByte high low).bind fun value => (decodeBytes rest).map (value :: ·)
  | byte :: rest => if byte = 37 then none else (decodeBytes rest).map (byte :: ·)

def percentDecode (path : Text) : Option Text := (decodeBytes (utf8Bytes path)).bind fromUtf8

def normalName : Component → Option (Option Text)
  | .normal name => some (some name)
  | .curDir => some none
  | .parentDir => none
  | .rootDir => none

/-- The names of a path that goes down only. -/
def normalizePath (path : Text) : Option (List Text) :=
  ((components path).mapM normalName).map fun names => names.filterMap id

def trimStartSlashes (path : Text) : Text := path.dropWhile (· = '/')

def assets : Text := ['a', 's', 's', 'e', 't', 's']
def libraryJson : Text := ['l', 'i', 'b', 'r', 'a', 'r', 'y', '.', 'j', 's', 'o', 'n']
def images : Text := ['i', 'm', 'a', 'g', 'e', 's']
def videos : Text := ['v', 'i', 'd', 'e', 'o', 's']

def firstPathComponentEqIgnoreAsciiCase (names : List Text) (expected : Text) : Bool :=
  names.head?.any fun name => eqIgnoreAsciiCase name expected

/-- The page of a route that is no file: its name with `.html` unless it has an extension. -/
def requestedPage (decoded : Text) : Text :=
  let requested := if decoded = ['/'] then "/index.html".toList else decoded
  let requested := if 1 < requested.length ∧ requested.getLast? = some '/' then requested.dropLast else requested
  if '.' ∈ (requested.splitOn '/').getLastD [] then requested else requested ++ ".html".toList

def isRoute (decoded route : Text) : Bool := startsWith decoded (route ++ ['/']) || decoded == route

def resolveLocalPath (frontendDir repoRoot : Path) (pathname : Text) : Option Path :=
  (percentDecode pathname).bind fun decoded =>
    if isRoute decoded "/watch".toList = true then some (join frontendDir ["player.html".toList])
    else if isRoute decoded "/reset-password".toList = true then some (join frontendDir ["reset-password.html".toList])
    else (normalizePath (trimStartSlashes decoded)).bind fun names =>
      if firstPathComponentEqIgnoreAsciiCase names assets = true then
        if repoRoot.isPrefixOf (join repoRoot names) = true then some (join repoRoot names) else none
      else (normalizePath (trimStartSlashes (requestedPage decoded))).bind fun page =>
        if frontendDir.isPrefixOf (join frontendDir page) = true then some (join frontendDir page) else none

inductive PrivateStaticAssetKind where
  | library
  | image
  | video
  deriving DecidableEq

def classifyPrivateStaticAsset : Path → Option PrivateStaticAssetKind
  | .normal root :: .normal category :: rest =>
    if eqIgnoreAsciiCase root assets = false then none
    else if eqIgnoreAsciiCase category libraryJson = true ∧ rest = [] then some .library
    else if eqIgnoreAsciiCase category images = true then some .image
    else if eqIgnoreAsciiCase category videos = true then some .video
    else none
  | _ => none

def classifyPrivateStaticRequest (pathname : Text) : Option PrivateStaticAssetKind :=
  (percentDecode pathname).bind fun decoded => (normalizePath (trimStartSlashes decoded)).bind fun names =>
    classifyPrivateStaticAsset (names.map .normal)

def shouldRequireAuthForStaticPath (pathname : Text) : Bool := (classifyPrivateStaticRequest pathname).isSome

def shouldRequireAuthForStaticFile (repoRoot file : Path) : Bool :=
  ((repoRoot.isPrefixOf? file).bind classifyPrivateStaticAsset).isSome

inductive CachePolicy where
  | noStore
  | immutable
  | staticAsset
  | videoAsset
  deriving DecidableEq

def CachePolicy.text : CachePolicy → Text
  | noStore => "no-store".toList
  | immutable => "public, max-age=31536000, immutable".toList
  | staticAsset => "public, max-age=86400".toList
  | videoAsset => "private, max-age=3600".toList

def CachePolicy.isPublic (policy : CachePolicy) : Bool := startsWith policy.text "public".toList

def cacheControlForPath (pathname contentType : Text) : CachePolicy :=
  match classifyPrivateStaticRequest pathname with
  | some .library => .noStore
  | some .image => .noStore
  | some .video => .videoAsset
  | none =>
    if (pathname == ['/'] || endsWith pathname ".html".toList || startsWith contentType "text/html".toList ||
        contains contentType "json".toList) = true then .noStore
    else if startsWith pathname "/ui-assets/".toList = true then .immutable
    else if startsWith pathname "/assets/icons/".toList = true then .staticAsset
    else if (startsWith contentType "text/".toList || contains contentType "javascript".toList) = true then .noStore
    else .staticAsset

/-- The directories of a configuration. -/
structure Roots where
  rootDir : Path

def Roots.frontendDir (roots : Roots) : Path := join roots.rootDir ["dist".toList]
def Roots.assetsDir (roots : Roots) : Path := join roots.rootDir [assets]

def Roots.resolve (roots : Roots) (pathname : Text) : Option Path :=
  resolveLocalPath roots.frontendDir roots.rootDir pathname

def Within (directory file : Path) : Prop := lexicallyNormalized directory <+: lexicallyNormalized file

/-- The names under the root of a file that is private, in any case. -/
inductive PrivateNames : List Text → Prop where
  | library {root category : Text} (hroot : eqIgnoreAsciiCase root assets = true)
      (hcategory : eqIgnoreAsciiCase category libraryJson = true) : PrivateNames [root, category]
  | image {root category : Text} (rest : List Text) (hroot : eqIgnoreAsciiCase root assets = true)
      (hcategory : eqIgnoreAsciiCase category images = true) : PrivateNames (root :: category :: rest)
  | video {root category : Text} (rest : List Text) (hroot : eqIgnoreAsciiCase root assets = true)
      (hcategory : eqIgnoreAsciiCase category videos = true) : PrivateNames (root :: category :: rest)

def Roots.Private (roots : Roots) (file : Path) : Prop :=
  ∃ names, PrivateNames names ∧ lexicallyNormalized file = join (lexicallyNormalized roots.rootDir) names

/-- What the names of a private file ask for: a session, by the path and by the file, and no public cache. -/
def Roots.Guarded (roots : Roots) (pathname : Text) (file : Path) : Prop :=
  shouldRequireAuthForStaticPath pathname = true ∧ shouldRequireAuthForStaticFile roots.rootDir file = true ∧
    ∀ contentType, (cacheControlForPath pathname contentType).isPublic = false

theorem lexicallyNormalized_join (directory : Path) (names : List Text) :
    lexicallyNormalized (join directory names) = join (lexicallyNormalized directory) names := by
  rw [lexicallyNormalized, join, List.foldl_append, ← lexicallyNormalized]
  generalize lexicallyNormalized directory = before
  induction names generalizing before with
  | nil => simp [join]
  | cons name names ih =>
    rw [List.map_cons, List.foldl_cons, ih]
    simp [join]

theorem within_join (directory : Path) (names : List Text) : Within directory (join directory names) := by
  rw [Within, lexicallyNormalized_join]
  exact List.prefix_append _ _

theorem join_injective {directory : Path} {names names' : List Text} (h : join directory names = join directory names') :
    names = names' := by
  have hmap := List.append_cancel_left h
  exact List.map_injective_iff.mpr (fun _ _ hname => Component.normal.inj hname) hmap

/-- The names of a resolved file that is private begin with the assets directory. -/
theorem firstName_of_privateNames {name : Text} {names : List Text} (h : PrivateNames (name :: names)) :
    eqIgnoreAsciiCase name assets = true := by
  cases h with
  | library hroot => exact hroot
  | image _ hroot => exact hroot
  | video _ hroot => exact hroot

/-- A path is resolved under the frontend, or as the names it normalizes to under the root, the first of
which is the assets directory. -/
theorem resolve_cases {roots : Roots} {pathname : Text} {file : Path} (h : roots.resolve pathname = some file) :
    (∃ names, file = join roots.frontendDir names) ∨
      ∃ name names, eqIgnoreAsciiCase name assets = true ∧ file = join roots.rootDir (name :: names) ∧
        classifyPrivateStaticRequest pathname = classifyPrivateStaticAsset ((name :: names).map .normal) := by
  obtain ⟨decoded, hdecoded, h⟩ := Option.bind_eq_some_iff.mp h
  split at h
  · exact .inl ⟨_, (Option.some.inj h).symm⟩
  split at h
  · exact .inl ⟨_, (Option.some.inj h).symm⟩
  obtain ⟨names, hnames, h⟩ := Option.bind_eq_some_iff.mp h
  split at h
  next hassets =>
    split at h
    · cases names with
      | nil => cases hassets
      | cons name names =>
        refine .inr ⟨name, names, hassets, (Option.some.inj h).symm, ?_⟩
        rw [classifyPrivateStaticRequest, hdecoded, Option.bind_some, hnames, Option.bind_some]
    · cases h
  next =>
    obtain ⟨page, hpage, h⟩ := Option.bind_eq_some_iff.mp h
    split at h
    · exact .inl ⟨page, (Option.some.inj h).symm⟩
    · cases h

theorem isSome_classify_of_privateNames {names : List Text} (h : PrivateNames names) :
    (classifyPrivateStaticAsset (names.map .normal)).isSome = true := by
  cases h with
  | library hroot hcategory => simp [classifyPrivateStaticAsset, hroot, hcategory]
  | image rest hroot hcategory =>
    simp only [List.map_cons, classifyPrivateStaticAsset, hroot, hcategory, Bool.true_eq_false, if_false, if_true]
    split <;> rfl
  | video rest hroot hcategory =>
    simp only [List.map_cons, classifyPrivateStaticAsset, hroot, hcategory, Bool.true_eq_false, if_false, if_true]
    split
    · rfl
    · split <;> rfl

/-- No policy for a private asset is public. -/
theorem not_isPublic_of_classified {pathname : Text} (h : (classifyPrivateStaticRequest pathname).isSome = true)
    (contentType : Text) : (cacheControlForPath pathname contentType).isPublic = false := by
  obtain ⟨kind, hkind⟩ := Option.isSome_iff_exists.mp h
  rw [cacheControlForPath, hkind]
  cases kind with
  | library => exact show CachePolicy.noStore.isPublic = false by decide
  | image => exact show CachePolicy.noStore.isPublic = false by decide
  | video => exact show CachePolicy.videoAsset.isPublic = false by decide

theorem stripPrefix_join (directory : Path) (names : List Text) :
    directory.isPrefixOf? (join directory names) = some (names.map .normal) := by
  rw [join]
  induction directory with
  | nil => rfl
  | cons component directory ih => simp [List.isPrefixOf?, ih]

/-- Where a path resolves to a private file, the path and the file are classified alike. -/
theorem guarded_of_private {roots : Roots} {pathname : Text} {file : Path} (h : roots.resolve pathname = some file)
    (hprivate : roots.Private file) : roots.Guarded pathname file := by
  obtain ⟨privateNames, hnames, hfile⟩ := hprivate
  rcases resolve_cases h with ⟨names, rfl⟩ | ⟨name, names, hassets, rfl, hclass⟩
  · -- the frontend's directory is not called like the assets'
    have hdist : join roots.frontendDir names = join roots.rootDir ("dist".toList :: names) := by
      simp [Roots.frontendDir, join]
    rw [hdist, lexicallyNormalized_join] at hfile
    rw [← join_injective hfile] at hnames
    have hsame := firstName_of_privateNames hnames
    exact absurd hsame (by decide)
  · rw [lexicallyNormalized_join] at hfile
    rw [← join_injective hfile] at hnames
    have hsome := isSome_classify_of_privateNames hnames
    refine ⟨?_, ?_, ?_⟩
    · rw [shouldRequireAuthForStaticPath, hclass, hsome]
    · rw [shouldRequireAuthForStaticFile, stripPrefix_join, Option.bind_some, hsome]
    · exact not_isPublic_of_classified (by rw [hclass, hsome])

/-- A resolved path stays in the frontend's directory or in one that is called `assets` in some case, and a
private one asks for a session and no public cache. -/
theorem resolve_confined {roots : Roots} {pathname : Text} {file : Path} (h : roots.resolve pathname = some file) :
    (Within roots.frontendDir file ∨
      ∃ name, eqIgnoreAsciiCase name assets = true ∧ Within (join roots.rootDir [name]) file) ∧
        (roots.Private file → roots.Guarded pathname file) := by
  refine ⟨?_, guarded_of_private h⟩
  rcases resolve_cases h with ⟨names, rfl⟩ | ⟨name, names, hassets, rfl, -⟩
  · exact .inl (within_join _ names)
  · have hjoin : join roots.rootDir (name :: names) = join (join roots.rootDir [name]) names := by simp [join]
    rw [hjoin]
    exact .inr ⟨name, hassets, within_join _ names⟩

/-- `/app`. -/
def appRoots : Roots := ⟨[.rootDir, .normal "app".toList]⟩

theorem resolve_shouted : appRoots.resolve "/ASSETS/Images/a.jpg".toList =
    some (join appRoots.rootDir ["ASSETS".toList, "Images".toList, "a.jpg".toList]) := by
  decide

theorem resolve_confined_shouted :
    appRoots.Private (join appRoots.rootDir ["ASSETS".toList, "Images".toList, "a.jpg".toList]) ∧
      appRoots.Guarded "/ASSETS/Images/a.jpg".toList (join appRoots.rootDir ["ASSETS".toList, "Images".toList, "a.jpg".toList]) := by
  have hprivate : appRoots.Private (join appRoots.rootDir ["ASSETS".toList, "Images".toList, "a.jpg".toList]) := by
    refine ⟨_, .image ["a.jpg".toList] ?_ ?_, lexicallyNormalized_join _ _⟩
    · decide +kernel
    · decide +kernel
  exact ⟨hprivate, (resolve_confined resolve_shouted).2 hprivate⟩

theorem shouted_assets_escape : ¬ ∀ (roots : Roots) (pathname : Text) (file : Path), roots.resolve pathname = some file →
    (Within roots.frontendDir file ∨ Within roots.assetsDir file) ∧ (roots.Private file → roots.Guarded pathname file) := by
  intro h
  obtain ⟨hwithin, -⟩ := h appRoots _ _ resolve_shouted
  rw [Within, Within, ← List.isPrefixOf_iff_prefix, ← List.isPrefixOf_iff_prefix] at hwithin
  exact absurd hwithin (by decide +kernel)

end StreamArena.Routes
