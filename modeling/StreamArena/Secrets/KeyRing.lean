import StreamArena.Library.Base64Url
import StreamArena.Library.KeyedTable
import StreamArena.Routes.Fields

/-! The operator's key ring (`RealDebridTokenCipher::from_spec`, src/secret_store.rs):
comma-separated `key-id:base64url-key` entries, the first one active. -/
namespace StreamArena.Secrets
open AsciiText KeyedTable Aead Base64Url Routes

def keysEnvName : Text := "REAL_DEBRID_TOKEN_ENCRYPTION_KEYS".toList
def nonceBytes : Nat := 12
def keyBytes : Nat := 32
def tagBytes : Nat := 16
def maxKeys : Nat := 16

@[ext] structure KeyMaterial where
  bytes : Bytes
  length_eq : bytes.length = keyBytes

@[ext] structure Nonce where
  bytes : Bytes
  length_eq : bytes.length = nonceBytes

def isValidKeyId (value : Text) : Bool :=
  !value.isEmpty && decide (byteLength value ≤ 48) &&
    value.all fun c => c.isAlphanum || ['.', '_', '-'].contains c

/-- The first configured key is active; the others only decrypt. -/
structure RealDebridTokenCipher where
  activeKeyId : Option Text
  keys : Table Text KeyMaterial
  active_mem : ∀ keyId, activeKeyId = some keyId → (keys.get keyId).isSome = true
  keyIds_valid : ∀ keyId, (keys.get keyId).isSome = true → isValidKeyId keyId = true

namespace RealDebridTokenCipher

def disabled : RealDebridTokenCipher where
  activeKeyId := none
  keys := Table.empty
  active_mem keyId h := by simp at h
  keyIds_valid keyId h := by simp at h

def isEnabled (cipher : RealDebridTokenCipher) : Bool := cipher.activeKeyId.isSome

/-- One more key; the first one becomes active. -/
def insertKey (cipher : RealDebridTokenCipher) (keyId : Text) (key : KeyMaterial)
    (h : isValidKeyId keyId = true) : RealDebridTokenCipher where
  activeKeyId := cipher.activeKeyId.or (some keyId)
  keys := cipher.keys.upsert keyId key fun _ => key
  active_mem active hactive := by
    rw [get_upsert]
    split
    · rfl
    · next hne =>
      rw [Option.or_eq_some_iff] at hactive
      rcases hactive with hold | ⟨-, hnew⟩
      · exact cipher.active_mem active hold
      · exact absurd (Option.some.inj hnew).symm hne
  keyIds_valid other hother := by
    rw [get_upsert] at hother
    split at hother
    · next he => exact he ▸ h
    · exact cipher.keyIds_valid other hother

end RealDebridTokenCipher

def configurationError (detail : Text) : ApiError :=
  .internal (keysEnvName ++ " ".toList ++ detail ++ ".".toList)

def configurationEntryError (entryNumber : Nat) (detail : Text) : ApiError :=
  .internal (keysEnvName ++ " entry ".toList ++ (toString entryNumber).toList ++ " ".toList ++
    detail ++ ".".toList)

/-- A key under a valid id. -/
structure KeyEntry where
  keyId : Text
  key : KeyMaterial
  valid : isValidKeyId keyId = true

def parseKeyEntry (codec : Codec) (entryNumber : Nat) (rawEntry : Text) : Except ApiError KeyEntry :=
  let fail (detail : Text) := .error (configurationEntryError entryNumber detail)
  match splitOnce ":".toList (trim rawEntry) with
  | none => fail "must use key-id:base64url-key".toList
  | some (rawId, rawKey) =>
    let keyId := trim rawId
    if hid : isValidKeyId keyId = true then
      if rawKey.contains ':' then fail "has an invalid key encoding".toList
      else
        match codec.decode (trim rawKey) with
        | none => fail "is not unpadded base64url".toList
        | some decoded =>
          if hlen : decoded.length = keyBytes then .ok ⟨keyId, ⟨decoded, hlen⟩, hid⟩
          else fail "must decode to exactly 32 bytes".toList
    else fail "has an invalid key id".toList

def addKeyEntry (codec : Codec) (cipher : RealDebridTokenCipher) (entry : Text × Nat) :
    Except ApiError RealDebridTokenCipher := do
  let entryNumber := entry.2 + 1
  let parsed ← parseKeyEntry codec entryNumber entry.1
  if (cipher.keys.get parsed.keyId).isSome then
    .error (configurationEntryError entryNumber "repeats an earlier key id".toList)
  else return cipher.insertKey parsed.keyId parsed.key parsed.valid

def fromSpec (codec : Codec) : Option Text → Except ApiError RealDebridTokenCipher
  | none => .ok .disabled
  | some spec =>
    if (trim spec).isEmpty then .error (configurationError "is empty".toList)
    else
      let entries := spec.splitOn ','
      if entries.length > maxKeys then .error (configurationError "contains too many keys".toList)
      else entries.zipIdx.foldlM (addKeyEntry codec) .disabled

variable {codec : Codec} {cipher next : RealDebridTokenCipher}

theorem addKeyEntry_ok {entry : Text × Nat} (h : addKeyEntry codec cipher entry = .ok next) :
    ∃ parsed, parseKeyEntry codec (entry.2 + 1) entry.1 = .ok parsed ∧
      next.activeKeyId = cipher.activeKeyId.or (some parsed.keyId) ∧
      next.keys.rows.length = cipher.keys.rows.length + 1 := by
  obtain ⟨parsed, hparsed, h⟩ := bind_eq_ok.mp h
  split at h
  · simp at h
  · next hfree =>
    obtain rfl := Except.ok.inj h
    exact ⟨parsed, hparsed, rfl, length_upsert_of_free (by simpa using hfree) _ _⟩

theorem addKeyEntries_ok {entries : List (Text × Nat)}
    (h : entries.foldlM (addKeyEntry codec) cipher = .ok next) :
    next.keys.rows.length = cipher.keys.rows.length + entries.length ∧
      ∀ keyId, cipher.activeKeyId = some keyId → next.activeKeyId = some keyId := by
  induction entries generalizing cipher with
  | nil =>
    obtain rfl := Except.ok.inj h
    exact ⟨rfl, fun _ hactive => hactive⟩
  | cons entry entries ih =>
    obtain ⟨mid, hmid, h⟩ := bind_eq_ok.mp h
    obtain ⟨parsed, -, hactive, hlen⟩ := addKeyEntry_ok hmid
    obtain ⟨hlen', hactive'⟩ := ih h
    refine ⟨?_, fun keyId hk => hactive' keyId ?_⟩
    · rw [hlen', hlen, List.length_cons]
      omega
    · rw [hactive, hk, Option.some_or]

/-- An accepted ring has one key for each entry, sixteen at most, and the first is active. -/
theorem fromSpec_ok {spec : Text} (h : fromSpec codec (some spec) = .ok next) :
    next.keys.rows.length = (spec.splitOn ',').length ∧ next.keys.rows.length ≤ maxKeys ∧
      ∃ first rest parsed, spec.splitOn ',' = first :: rest ∧
        parseKeyEntry codec 1 first = .ok parsed ∧ next.activeKeyId = some parsed.keyId := by
  simp only [fromSpec] at h
  split at h
  · simp at h
  · split at h
    · simp at h
    · next hle =>
      obtain ⟨hlen, -⟩ := addKeyEntries_ok h
      have hcount : next.keys.rows.length = (spec.splitOn ',').length := by
        rw [hlen, List.length_zipIdx]
        exact Nat.zero_add _
      refine ⟨hcount, by omega, ?_⟩
      obtain ⟨first, rest, hsplit⟩ := List.exists_cons_of_ne_nil (List.splitOn_ne_nil ',' spec)
      rw [hsplit, List.zipIdx_cons] at h
      obtain ⟨mid, hmid, h⟩ := bind_eq_ok.mp h
      obtain ⟨parsed, hparsed, hactive, -⟩ := addKeyEntry_ok hmid
      exact ⟨first, rest, parsed, hsplit, hparsed, (addKeyEntries_ok h).2 parsed.keyId hactive⟩

end StreamArena.Secrets
