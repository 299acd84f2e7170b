import StreamArena.Preferences.PreferenceTable
import StreamArena.Secrets.KeyRing

/-! Token envelopes `saenc:v1:<key id>:<nonce>:<ciphertext>`
(`encrypt_for_user`, `decrypt_envelope`, src/secret_store.rs). -/
namespace StreamArena.Secrets
open AsciiText KeyedTable Aead Base64Url Routes Preferences

def envelopePrefix : Text := "saenc:".toList
def envelopeVersion : Text := "v1".toList

/-- The cipher and the text codec in use. -/
structure TokenCrypto where
  aead : Ideal KeyMaterial Nonce tagBytes
  codec : Codec

def associatedData (userId : Int) (keyId : Text) : Text :=
  "streamarena|real-debrid-token|".toList ++ envelopeVersion ++ "|preference:".toList ++
    realDebridTokenPrefKey ++ "|user:".toList ++ ((toString userId).toList ++
      ("|key:".toList ++ keyId))

def envelope (keyId nonceEncoded ciphertextEncoded : Text) : Text :=
  envelopePrefix ++ [':'].intercalate [envelopeVersion, keyId, nonceEncoded, ciphertextEncoded]

def decryptionError : ApiError := .internal
  "Stored Real-Debrid token could not be authenticated; check the encryption key ring.".toList

def unavailableKeyError (keyId : Text) : ApiError := .internal
  ("Stored Real-Debrid token requires an unavailable encryption key (".toList ++ keyId ++
    ").".toList)

section
variable (crypto : TokenCrypto) (cipher : RealDebridTokenCipher)

/-- `nonce` is what the system's random source gives, `none` where it fails. -/
def encryptForUser (nonce : Option Nonce) (userId : Int) (plaintext : Text) :
    Except ApiError Text :=
  match cipher.activeKeyId with
  | none => .error (.serviceUnavailable
      "Real-Debrid token storage is unavailable; encryption is not configured.".toList)
  | some keyId =>
    match cipher.keys.get keyId with
    | none => .error (.internal
        "Real-Debrid token encryption key ring is inconsistent.".toList)
    | some key =>
      match nonce with
      | none => .error (.internal
          "OS CSPRNG unavailable; refusing to store a Real-Debrid token.".toList)
      | some nonce =>
        let aad := associatedData userId keyId
        let ciphertext := crypto.aead.encrypt key nonce (utf8Bytes aad) (utf8Bytes plaintext)
        .ok (envelope keyId (crypto.codec.encode nonce.bytes) (crypto.codec.encode ciphertext))

/-- What an envelope says it was sealed with. -/
structure SealedToken where
  keyId : Text
  key : KeyMaterial
  nonce : Nonce
  ciphertext : Bytes

def decodeNonce (nonceEncoded : Text) : Option Nonce :=
  (crypto.codec.decode nonceEncoded).bind fun bytes =>
    if h : bytes.length = nonceBytes then some ⟨bytes, h⟩ else none

def decodeCiphertext (ciphertextEncoded : Text) : Option Bytes :=
  (crypto.codec.decode ciphertextEncoded).bind fun bytes =>
    if bytes.length < tagBytes then none else some bytes

/-- `decrypt_envelope` up to the decryption itself. -/
def parseEnvelope (storedValue : Text) : Except ApiError SealedToken :=
  match (stripPrefix storedValue envelopePrefix).map fun encoded => encoded.splitOn ':' with
  | some [version, keyId, nonceEncoded, ciphertextEncoded] =>
    if version != envelopeVersion || !isValidKeyId keyId || nonceEncoded.isEmpty ||
        ciphertextEncoded.isEmpty then .error decryptionError
    else
      match cipher.keys.get keyId with
      | none => .error (unavailableKeyError keyId)
      | some key =>
        match decodeNonce crypto nonceEncoded, decodeCiphertext crypto ciphertextEncoded with
        | some nonce, some ciphertext => .ok { keyId, key, nonce, ciphertext }
        | _, _ => .error decryptionError
  | _ => .error decryptionError

def SealedToken.open (userId : Int) (token : SealedToken) : Option Text :=
  let aad := associatedData userId token.keyId
  (crypto.aead.decrypt token.key token.nonce (utf8Bytes aad) token.ciphertext).bind fromUtf8

/-- Plaintext and key id. -/
def decryptEnvelope (userId : Int) (storedValue : Text) : Except ApiError (Text × Text) := do
  let token ← parseEnvelope crypto cipher storedValue
  match token.open crypto userId with
  | none => .error decryptionError
  | some plaintext => .ok (plaintext, token.keyId)

def decryptForUser (userId : Int) (storedValue : Text) : Except ApiError Text :=
  if !startsWith storedValue envelopePrefix then .error (.internal
    "Stored Real-Debrid token is not encrypted; restart with a configured key ring.".toList)
  else (decryptEnvelope crypto cipher userId storedValue).map Prod.fst

end

variable {crypto : TokenCrypto} {cipher : RealDebridTokenCipher} {userId u : Int}
  {storedValue plaintext keyId : Text}

theorem associatedData_injective {u' : Int} (h : associatedData u keyId = associatedData u' keyId) :
    u = u' :=
  decimal_injective (List.append_cancel_right (List.append_cancel_left h))

theorem startsWith_envelope (nonceEncoded ciphertextEncoded : Text) :
    startsWith (envelope keyId nonceEncoded ciphertextEncoded) envelopePrefix = true :=
  startsWith_iff.mpr (List.prefix_append _ _)

theorem colon_notMem_encode (codec : Codec) (bytes : Bytes) : ':' ∉ codec.encode bytes := by
  intro hm
  exact absurd (codec.encode_alphabet bytes ':' hm) (by decide)

theorem colon_notMem_of_isValidKeyId (h : isValidKeyId keyId = true) : ':' ∉ keyId := by
  intro hm
  rw [isValidKeyId, Bool.and_eq_true, List.all_eq_true] at h
  exact absurd (h.2 ':' hm) (by decide)

/-- An envelope splits back into its fields. -/
theorem fields_envelope (codec : Codec) (hid : isValidKeyId keyId = true) (nonce ciphertext : Bytes) :
    (stripPrefix (envelope keyId (codec.encode nonce) (codec.encode ciphertext)) envelopePrefix).map
        (fun encoded => encoded.splitOn ':') =
      some [envelopeVersion, keyId, codec.encode nonce, codec.encode ciphertext] := by
  rw [envelope, stripPrefix_eq_some.mpr rfl, Option.map_some, List.splitOn_intercalate]
  · simp only [List.mem_cons, List.not_mem_nil, or_false, forall_eq_or_imp, forall_eq]
    exact ⟨by decide, colon_notMem_of_isValidKeyId hid, colon_notMem_encode codec nonce,
      colon_notMem_encode codec ciphertext⟩
  · simp

theorem decodeNonce_encode (nonce : Nonce) :
    decodeNonce crypto (crypto.codec.encode nonce.bytes) = some nonce := by
  rw [decodeNonce, crypto.codec.decode_encode, Option.bind_some, dif_pos nonce.length_eq]

theorem decodeCiphertext_encode {ciphertext : Bytes} (h : tagBytes ≤ ciphertext.length) :
    decodeCiphertext crypto (crypto.codec.encode ciphertext) = some ciphertext := by
  rw [decodeCiphertext, crypto.codec.decode_encode, Option.bind_some, if_neg (not_lt.mpr h)]

theorem parseEnvelope_envelope {key : KeyMaterial} (hkey : cipher.keys.get keyId = some key)
    (nonce : Nonce) {ciphertext : Bytes} (hlen : tagBytes ≤ ciphertext.length) :
    parseEnvelope crypto cipher
        (envelope keyId (crypto.codec.encode nonce.bytes) (crypto.codec.encode ciphertext)) =
      .ok { keyId, key, nonce, ciphertext } := by
  have hid : isValidKeyId keyId = true := cipher.keyIds_valid keyId (by simp [hkey])
  have hnonce : nonce.bytes ≠ [] := by
    intro he
    have hl := nonce.length_eq
    simp [he, nonceBytes] at hl
  have hcipher : ciphertext ≠ [] := by
    rintro rfl
    simp [tagBytes] at hlen
  have hfields : (envelopeVersion != envelopeVersion || !isValidKeyId keyId ||
      (crypto.codec.encode nonce.bytes).isEmpty || (crypto.codec.encode ciphertext).isEmpty) = false := by
    simp [hid, crypto.codec.encode_ne_nil hnonce, crypto.codec.encode_ne_nil hcipher]
  rw [parseEnvelope, fields_envelope crypto.codec hid]
  simp only [hfields, Bool.false_eq_true, ↓reduceIte, hkey, decodeNonce_encode,
    decodeCiphertext_encode hlen]

/-- What an encryption produces opens for its user, under the active key. -/
theorem decryptEnvelope_encryptForUser {nonce : Option Nonce}
    (h : encryptForUser crypto cipher nonce userId plaintext = .ok storedValue) :
    ∃ keyId, cipher.activeKeyId = some keyId ∧
      startsWith storedValue envelopePrefix = true ∧
      decryptEnvelope crypto cipher userId storedValue = .ok (plaintext, keyId) := by
  unfold encryptForUser at h
  split at h
  · simp at h
  · next keyId hactive =>
    split at h
    · simp at h
    · next key hkey =>
      split at h
      · simp at h
      · next nonce =>
        obtain rfl := Except.ok.inj h
        refine ⟨keyId, hactive, startsWith_envelope _ _, ?_⟩
        rw [decryptEnvelope, parseEnvelope_envelope hkey nonce (crypto.aead.tag_le ..)]
        simp only [bind, Except.bind, SealedToken.open, Ideal.decrypt_encrypt, Option.bind_some,
          fromUtf8_utf8Bytes]

variable (crypto) in
/-- An active ring encrypts whenever the random source answers. -/
theorem encryptForUser_isOk (hactive : cipher.activeKeyId = some keyId) (nonce : Nonce)
    (userId : Int) (plaintext : Text) :
    ∃ value, encryptForUser crypto cipher (some nonce) userId plaintext = .ok value := by
  obtain ⟨key, hkey⟩ := Option.isSome_iff_exists.mp (cipher.active_mem keyId hactive)
  simp only [encryptForUser, hactive, hkey, Except.ok.injEq, exists_eq']

theorem decryptEnvelope_eq_ok {result : Text × Text} :
    decryptEnvelope crypto cipher userId storedValue = .ok result ↔
      ∃ token, parseEnvelope crypto cipher storedValue = .ok token ∧
        token.open crypto userId = some result.1 ∧ token.keyId = result.2 := by
  rw [decryptEnvelope, bind_eq_ok]
  refine exists_congr fun token => and_congr_right fun _ => ?_
  cases token.open crypto userId with
  | none => simp
  | some plaintext => simp [Prod.ext_iff]

/-- No envelope opens for two users, whoever sealed it. -/
theorem user_of_decryptEnvelope {u : Int} {result result' : Text × Text}
    (h : decryptEnvelope crypto cipher userId storedValue = .ok result)
    (h' : decryptEnvelope crypto cipher u storedValue = .ok result') : userId = u := by
  obtain ⟨token, hparse, hopen, -⟩ := decryptEnvelope_eq_ok.mp h
  obtain ⟨token', hparse', hopen', -⟩ := decryptEnvelope_eq_ok.mp h'
  obtain rfl := Except.ok.inj (hparse.symm.trans hparse')
  obtain ⟨m, hm, -⟩ := Option.bind_eq_some_iff.mp hopen
  obtain ⟨m', hm', -⟩ := Option.bind_eq_some_iff.mp hopen'
  have hsame := (crypto.aead.decrypt_iff.mp hm).trans (crypto.aead.decrypt_iff.mp hm').symm
  exact associatedData_injective (utf8Bytes_injective (crypto.aead.separates hsame).2.2)

theorem startsWith_of_decryptEnvelope {result : Text × Text}
    (h : decryptEnvelope crypto cipher userId storedValue = .ok result) :
    startsWith storedValue envelopePrefix = true := by
  obtain ⟨token, hparse, -⟩ := decryptEnvelope_eq_ok.mp h
  cases hs : stripPrefix storedValue envelopePrefix with
  | none => simp [parseEnvelope, hs] at hparse
  | some encoded => exact startsWith_iff.mpr ⟨encoded, (stripPrefix_eq_some.mp hs).symm⟩

/-- Reading a token is opening its envelope. -/
theorem decryptForUser_eq_ok :
    decryptForUser crypto cipher userId storedValue = .ok plaintext ↔
      ∃ keyId, decryptEnvelope crypto cipher userId storedValue = .ok (plaintext, keyId) := by
  constructor
  · intro h
    unfold decryptForUser at h
    split at h
    · simp at h
    · cases hd : decryptEnvelope crypto cipher userId storedValue with
      | error e => simp [hd, Except.map] at h
      | ok result =>
        rw [hd] at h
        exact ⟨result.2, by rw [← Except.ok.inj h]⟩
  · rintro ⟨keyId, h⟩
    rw [decryptForUser, startsWith_of_decryptEnvelope h, h]
    rfl

end StreamArena.Secrets
