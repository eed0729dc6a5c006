import PhantomShare.Foundations.Bytes

/-!
# The encrypted file object

`encrypt_file` writes a header (magic, eight random nonce bytes, the chunk
size) and one record for each chunk: the length of the ciphertext and the
ciphertext. The nonce and the associated data of a record carry its index; the
associated data also binds the secret and the version. `decrypt_file` reads
records until the file ends at a record boundary.
-/
namespace PhantomShare.FileCrypto
open Foundations

/-- A Python `UUID` holds a 128-bit integer. -/
abbrev UUID := BitVec 128

/-- `UUID.bytes`: sixteen octets, most significant first. -/
def uuidBytes (u : UUID) : Bytes := (List.range 16).map fun i => UInt8.ofNat (u.toNat / 256 ^ (15 - i))

/-- `MAGIC = b"PHANTOM1"`. -/
def magic : Bytes := [80, 72, 65, 78, 84, 79, 77, 49]

/-- `CHUNK_SIZE = 1024 * 1024`. -/
def chunkSize : ℕ := 1024 * 1024

inductive FileCryptoError where
  | valueError (message : String)
  | invalidTag
  | structError
  deriving DecidableEq, Repr

/-- `struct.pack(">I", n)` with its exception. -/
def structPack (n : ℕ) : Except FileCryptoError Bytes :=
  match packU32 n with
  | some raw => .ok raw
  | none => .error .structError

variable {Key : Type} (A : Aead Key)

/-- The local variables of `encrypt_file`; `calls` lists the arguments given to
`cipher.encrypt` and `digested` the bytes given to `digest.update`. -/
structure EncryptState where
  index : ℕ
  total : ℕ
  digested : Bytes
  dst : Bytes
  calls : List SealCall

/-- One iteration of the loop of `encrypt_file` on a chunk that was read. -/
def encryptChunk (key : Key) (noncePrefix aadPrefix : Bytes) (st : EncryptState) (chunk : Bytes) :
    Except FileCryptoError EncryptState := do
  let counter ← structPack st.index
  let nonce := noncePrefix ++ counter
  let aad := aadPrefix ++ counter
  let encrypted := A.encrypt key nonce chunk aad
  let size ← structPack encrypted.length
  return { index := st.index + 1
           total := st.total + chunk.length
           digested := st.digested ++ chunk
           dst := st.dst ++ size ++ encrypted
           calls := st.calls ++ [⟨nonce, chunk, aad⟩] }

/-- `while chunk := src.read(CHUNK_SIZE)`. -/
def encryptLoop (key : Key) (noncePrefix aadPrefix : Bytes) (st : EncryptState) (src : Bytes) :
    Except FileCryptoError EncryptState :=
  (chunksOf chunkSize src).foldlM (encryptChunk A key noncePrefix aadPrefix) st

/-- What `encrypt_file` leaves: the object, the size and the hex digest. -/
structure EncryptedFile where
  object : Bytes
  total : ℕ
  digest : String
  calls : List SealCall

/-- `encrypt_file(source, destination, dek, secret_id, version)`, where `noncePrefix`
is the result of `os.urandom(8)`. -/
def encryptFile (sha256 : Bytes → String) (dek : Key) (noncePrefix : Bytes) (secretId : UUID)
    (version : ℕ) (source : Bytes) : Except FileCryptoError EncryptedFile := do
  let packedVersion ← structPack version
  let aadPrefix := uuidBytes secretId ++ packedVersion
  let sizeField ← structPack chunkSize
  let st ← encryptLoop A dek noncePrefix aadPrefix
    ⟨0, 0, [], magic ++ noncePrefix ++ sizeField, []⟩ source
  return ⟨st.dst, st.total, sha256 st.digested, st.calls⟩

/-- The loop of `decrypt_file`; `src` is what is left of the file. -/
def decryptLoop (key : Key) (noncePrefix aadPrefix : Bytes) (index : ℕ) (src dst : Bytes) :
    Except FileCryptoError Bytes :=
  if src.take 4 = [] then .ok dst
  else if (src.take 4).length ≠ 4 then .error (.valueError "Truncated encrypted file")
  else
    let length := beValue (src.take 4)
    let encrypted := (src.drop 4).take length
    if encrypted.length ≠ length then .error (.valueError "Truncated encrypted file")
    else
      match structPack index with
      | .error e => .error e
      | .ok counter =>
        match A.decrypt key (noncePrefix ++ counter) encrypted (aadPrefix ++ counter) with
        | none => .error .invalidTag
        | some plaintext =>
          decryptLoop key noncePrefix aadPrefix (index + 1) ((src.drop 4).drop length)
            (dst ++ plaintext)
termination_by src.length
decreasing_by
  have hpos : 0 < src.length := by
    rcases src with _ | ⟨b, rest⟩
    · simp at *
    · simp
  simp only [List.length_drop]
  omega

/-- `decrypt_file(source, destination, dek, secret_id, version)`: the bytes written when it
returns. The chunk size in the header is read past and never used. -/
def decryptFile (dek : Key) (secretId : UUID) (version : ℕ) (source : Bytes) :
    Except FileCryptoError Bytes := do
  let packedVersion ← structPack version
  let aadPrefix := uuidBytes secretId ++ packedVersion
  let header := source.take (magic.length + 12)
  if header.length ≠ magic.length + 12 ∨ header.take magic.length ≠ magic then
    .error (.valueError "Invalid encrypted file header")
  else
    let noncePrefix := (header.drop magic.length).take 8
    decryptLoop A dek noncePrefix aadPrefix 0 (source.drop (magic.length + 12)) []

theorem structPack_eq_ok {n : ℕ} {raw : Bytes} :
    structPack n = .ok raw ↔ n < 2 ^ 32 ∧ raw = be32 n := by
  rw [← packU32_eq_some]
  unfold structPack
  cases packU32 n <;> simp

/-- A step that returns has returned in both of its parts. -/
theorem bind_eq_ok {ε α β : Type} {x : Except ε α} {f : α → Except ε β} {b : β} :
    (x >>= f) = .ok b ↔ ∃ a, x = .ok a ∧ f a = .ok b := by
  cases x <;> simp [bind, Except.bind]

/-- The stored form of a chunk at an index. -/
def record (key : Key) (noncePrefix aadPrefix : Bytes) (index : ℕ) (chunk : Bytes) : Bytes :=
  be32 (A.encrypt key (noncePrefix ++ be32 index) chunk (aadPrefix ++ be32 index)).length ++
    A.encrypt key (noncePrefix ++ be32 index) chunk (aadPrefix ++ be32 index)

/-- The stored form of consecutive chunks from an index on. -/
def records (key : Key) (noncePrefix aadPrefix : Bytes) : ℕ → List Bytes → Bytes
  | _, [] => []
  | index, chunk :: rest =>
    record A key noncePrefix aadPrefix index chunk ++
      records key noncePrefix aadPrefix (index + 1) rest

/-- The `encrypt` calls made for consecutive chunks from an index on. -/
def sealCalls (noncePrefix aadPrefix : Bytes) : ℕ → List Bytes → List SealCall
  | _, [] => []
  | index, chunk :: rest =>
    ⟨noncePrefix ++ be32 index, chunk, aadPrefix ++ be32 index⟩ ::
      sealCalls noncePrefix aadPrefix (index + 1) rest

/-- Each ciphertext length and each index of consecutive records fits its field. -/
def RecordsFit (key : Key) (noncePrefix aadPrefix : Bytes) : ℕ → List Bytes → Prop
  | _, [] => True
  | index, chunk :: rest =>
    index < 2 ^ 32 ∧
    (A.encrypt key (noncePrefix ++ be32 index) chunk (aadPrefix ++ be32 index)).length < 2 ^ 32 ∧
    RecordsFit key noncePrefix aadPrefix (index + 1) rest

theorem encryptChunk_eq_ok {key : Key} {noncePrefix aadPrefix : Bytes} {st st' : EncryptState}
    {chunk : Bytes} (h : encryptChunk A key noncePrefix aadPrefix st chunk = .ok st') :
    st.index < 2 ^ 32 ∧
    (A.encrypt key (noncePrefix ++ be32 st.index) chunk (aadPrefix ++ be32 st.index)).length
      < 2 ^ 32 ∧
    st' = { index := st.index + 1
            total := st.total + chunk.length
            digested := st.digested ++ chunk
            dst := st.dst ++ record A key noncePrefix aadPrefix st.index chunk
            calls := st.calls ++
              [⟨noncePrefix ++ be32 st.index, chunk, aadPrefix ++ be32 st.index⟩] } := by
  obtain ⟨counter, hcounter, h⟩ := bind_eq_ok.mp h
  obtain ⟨hindex, rfl⟩ := structPack_eq_ok.mp hcounter
  obtain ⟨size, hsize, h⟩ := bind_eq_ok.mp h
  obtain ⟨hlength, rfl⟩ := structPack_eq_ok.mp hsize
  refine ⟨hindex, hlength, ?_⟩
  cases h
  simp [record]

/-- The loop appends the records of the chunks it has read, in order. -/
theorem encryptChunks_eq_ok {key : Key} {noncePrefix aadPrefix : Bytes} {chunks : List Bytes}
    {st st' : EncryptState}
    (h : chunks.foldlM (encryptChunk A key noncePrefix aadPrefix) st = .ok st') :
    RecordsFit A key noncePrefix aadPrefix st.index chunks ∧
    st'.dst = st.dst ++ records A key noncePrefix aadPrefix st.index chunks ∧
    st'.total = st.total + chunks.flatten.length ∧
    st'.digested = st.digested ++ chunks.flatten ∧
    st'.calls = st.calls ++ sealCalls noncePrefix aadPrefix st.index chunks := by
  induction chunks generalizing st with
  | nil =>
    cases h
    simp [RecordsFit, records, sealCalls]
  | cons chunk rest ih =>
    rw [List.foldlM_cons] at h
    obtain ⟨mid, hmid, h⟩ := bind_eq_ok.mp h
    obtain ⟨hindex, hlength, rfl⟩ := encryptChunk_eq_ok A hmid
    obtain ⟨hfit, hdst, htotal, hdigested, hcalls⟩ := ih h
    refine ⟨⟨hindex, hlength, hfit⟩, ?_, ?_, ?_, ?_⟩
    · rw [hdst, records, List.append_assoc]
    · rw [htotal, List.flatten_cons, List.length_append, Nat.add_assoc]
    · rw [hdigested, List.flatten_cons, List.append_assoc]
    · rw [hcalls, sealCalls, List.append_assoc, List.singleton_append]

/-- What a returning `encrypt_file` has written, hashed and sealed. -/
theorem encryptFile_eq_ok {sha256 : Bytes → String} {dek : Key} {noncePrefix : Bytes}
    {secretId : UUID} {version : ℕ} {source : Bytes} {file : EncryptedFile}
    (h : encryptFile A sha256 dek noncePrefix secretId version source = .ok file) :
    version < 2 ^ 32 ∧
    RecordsFit A dek noncePrefix (uuidBytes secretId ++ be32 version) 0
      (chunksOf chunkSize source) ∧
    file.object = magic ++ noncePrefix ++ be32 chunkSize ++
      records A dek noncePrefix (uuidBytes secretId ++ be32 version) 0
        (chunksOf chunkSize source) ∧
    file.total = source.length ∧
    file.digest = sha256 source ∧
    file.calls = sealCalls noncePrefix (uuidBytes secretId ++ be32 version) 0
      (chunksOf chunkSize source) := by
  obtain ⟨packedVersion, hversion, h⟩ := bind_eq_ok.mp h
  obtain ⟨hbound, rfl⟩ := structPack_eq_ok.mp hversion
  obtain ⟨sizeField, hsize, h⟩ := bind_eq_ok.mp h
  obtain ⟨-, rfl⟩ := structPack_eq_ok.mp hsize
  obtain ⟨st, hloop, h⟩ := bind_eq_ok.mp h
  cases h
  obtain ⟨hfit, hdst, htotal, hdigested, hcalls⟩ := encryptChunks_eq_ok A hloop
  have hflat : (chunksOf chunkSize source).flatten = source :=
    chunksOf_flatten (by decide) source
  refine ⟨hbound, hfit, hdst, ?_, ?_, ?_⟩
  · simpa [hflat] using htotal
  · simpa [hflat] using congrArg sha256 hdigested
  · simpa using hcalls

end PhantomShare.FileCrypto
