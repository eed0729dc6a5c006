import PhantomShare.FileCrypto.Format

/-!
# Which objects `decrypt_file` accepts

Under an ideal cipher every accepted object is a header followed by an initial
part of the records that `encrypt_file` wrote. The end of the file is not
authenticated, so a proper initial part is accepted as well and yields a proper
prefix of the plaintext. Every other change is refused or harmless.
-/
namespace PhantomShare.FileCrypto
open Foundations

variable {Key : Type} (A : Aead Key)

theorem mem_sealCalls {noncePrefix aadPrefix : Bytes} {start : ℕ} {chunks : List Bytes}
    {q : SealCall} :
    q ∈ sealCalls noncePrefix aadPrefix start chunks ↔ ∃ i, chunks[i]? = some q.plaintext ∧
      q.nonce = noncePrefix ++ be32 (start + i) ∧ q.aad = aadPrefix ++ be32 (start + i) := by
  induction chunks generalizing start with
  | nil => simp [sealCalls]
  | cons chunk rest ih =>
    rw [sealCalls, List.mem_cons, ih]
    constructor
    · rintro (rfl | ⟨i, hchunk, hnonce, haad⟩)
      · exact ⟨0, rfl, rfl, rfl⟩
      · refine ⟨i + 1, hchunk, ?_, ?_⟩
        · rw [hnonce, Nat.add_right_comm, Nat.add_assoc]
        · rw [haad, Nat.add_right_comm, Nat.add_assoc]
    · rintro ⟨i, hchunk, hnonce, haad⟩
      cases i with
      | zero =>
        left
        obtain ⟨n, p, a⟩ := q
        simp_all
      | succ i =>
        right
        refine ⟨i, hchunk, ?_, ?_⟩
        · rw [hnonce, Nat.add_right_comm, Nat.add_assoc]
        · rw [haad, Nat.add_right_comm, Nat.add_assoc]

theorem RecordsFit.at_index {key : Key} {noncePrefix aadPrefix : Bytes} {start : ℕ}
    {chunks : List Bytes} (h : RecordsFit A key noncePrefix aadPrefix start chunks)
    {i : ℕ} {chunk : Bytes} (hi : chunks[i]? = some chunk) :
    start + i < 2 ^ 32 ∧
    (A.encrypt key (noncePrefix ++ be32 (start + i)) chunk
      (aadPrefix ++ be32 (start + i))).length < 2 ^ 32 := by
  induction chunks generalizing start i with
  | nil => simp at hi
  | cons first rest ih =>
    obtain ⟨hindex, hlength, hrest⟩ := h
    cases i with
    | zero =>
      obtain rfl : first = chunk := by simpa using hi
      exact ⟨hindex, hlength⟩
    | succ i =>
      have hnext := ih hrest (by simpa using hi)
      rw [Nat.add_right_comm, Nat.add_assoc] at hnext
      exact hnext

section Ideal
variable {A} {key : Key} {noncePrefix aadPrefix : Bytes} {chunks : List Bytes}
  {extra : List SealCall}

/-- Under an ideal cipher a record opens only at its own index and under its own nonce prefix. -/
theorem decrypt_record_eq_some
    (hideal : A.IdealFor key (sealCalls noncePrefix aadPrefix 0 chunks ++ extra))
    (hextra : ∀ q ∈ extra, q.aad = [])
    (hfit : RecordsFit A key noncePrefix aadPrefix 0 chunks)
    {noncePrefix' data plaintext : Bytes} {index : ℕ} (hindex : index < 2 ^ 32)
    (h : A.decrypt key (noncePrefix' ++ be32 index) data (aadPrefix ++ be32 index) =
      some plaintext) :
    chunks[index]? = some plaintext ∧ noncePrefix' = noncePrefix ∧
      data = A.encrypt key (noncePrefix ++ be32 index) plaintext (aadPrefix ++ be32 index) := by
  obtain ⟨hmem, hdata⟩ := (hideal _ _ _ _).mp h
  rcases List.mem_append.mp hmem with hmem | hmem
  · obtain ⟨i, hchunk, hnonce, haad⟩ := mem_sealCalls.mp hmem
    rw [Nat.zero_add] at hnonce haad
    have hbound := (hfit.at_index A hchunk).1
    rw [Nat.zero_add] at hbound
    obtain rfl : index = i := be32_injective hindex hbound (List.append_cancel_left haad)
    obtain rfl : noncePrefix' = noncePrefix := List.append_cancel_right hnonce
    exact ⟨hchunk, rfl, hdata.symm⟩
  · -- the only other calls under a file key carry no associated data
    have hnil := hextra _ hmem
    simp [be32] at hnil

/-- What the loop accepts from an index on is an initial part of the remaining records. -/
theorem decryptLoop_sound
    (hideal : A.IdealFor key (sealCalls noncePrefix aadPrefix 0 chunks ++ extra))
    (hextra : ∀ q ∈ extra, q.aad = [])
    (hfit : RecordsFit A key noncePrefix aadPrefix 0 chunks)
    {noncePrefix' : Bytes} {index : ℕ} {src dst out : Bytes}
    (h : decryptLoop A key noncePrefix' aadPrefix index src dst = .ok out) :
    ∃ k ≤ (chunks.drop index).length, (k = 0 ∨ noncePrefix' = noncePrefix) ∧
      src = records A key noncePrefix aadPrefix index ((chunks.drop index).take k) ∧
      out = dst ++ ((chunks.drop index).take k).flatten := by
  fun_induction decryptLoop A key noncePrefix' aadPrefix index src dst with
  | case1 index src dst hend =>
    have hsrc : src = [] := by simpa using hend
    cases h
    exact ⟨0, Nat.zero_le _, Or.inl rfl, by simp [hsrc, records], by simp⟩
  | case2 => cases h
  | case3 => cases h
  | case4 => cases h
  | case5 => cases h
  | case6 index src dst _ hfour length encrypted hlength counter hcounter plaintext hopen ih =>
    obtain ⟨hindex, rfl⟩ := structPack_eq_ok.mp hcounter
    obtain ⟨hchunk, hnonce, hdata⟩ :=
      decrypt_record_eq_some hideal hextra hfit hindex hopen
    obtain ⟨k, hk, -, hsrc, hout⟩ := ih h
    have hdrop : chunks.drop index = plaintext :: chunks.drop (index + 1) := by
      obtain ⟨hlt, hget⟩ := List.getElem?_eq_some_iff.mp hchunk
      rw [List.drop_eq_getElem_cons hlt, hget]
    have hfield : be32 encrypted.length = src.take 4 := by
      have hraw : (src.take 4).length = 4 := by simpa using hfour
      have heq : encrypted.length = length := by simpa using hlength
      rw [heq]
      exact be32_beValue hraw
    refine ⟨k + 1, ?_, Or.inr hnonce, ?_, ?_⟩
    · rw [hdrop, List.length_cons]
      exact Nat.succ_le_succ hk
    · calc src
          = src.take 4 ++ (encrypted ++ (src.drop 4).drop length) := by
            rw [List.take_append_drop, List.take_append_drop]
        _ = be32 encrypted.length ++ encrypted ++ (src.drop 4).drop length := by
            rw [hfield, List.append_assoc]
        _ = _ := by
            rw [hdrop, List.take_succ_cons, records, record, ← hdata, ← hsrc]
    · rw [hout, hdrop, List.take_succ_cons, List.flatten_cons, List.append_assoc]

/-- The loop reads back any run of records that `encrypt_file` wrote from an index on. -/
theorem decryptLoop_complete
    (hopens : ∀ i chunk, chunks[i]? = some chunk → A.decrypt key (noncePrefix ++ be32 i)
      (A.encrypt key (noncePrefix ++ be32 i) chunk (aadPrefix ++ be32 i)) (aadPrefix ++ be32 i) =
        some chunk)
    (hfit : RecordsFit A key noncePrefix aadPrefix 0 chunks) {index k : ℕ} (dst : Bytes) :
    decryptLoop A key noncePrefix aadPrefix index
        (records A key noncePrefix aadPrefix index ((chunks.drop index).take k)) dst =
      .ok (dst ++ ((chunks.drop index).take k).flatten) := by
  induction k generalizing index dst with
  | zero => rw [decryptLoop]; simp [records]
  | succ k ih =>
    rcases hrest : chunks.drop index with _ | ⟨chunk, rest⟩
    · rw [decryptLoop]; simp [records]
    · have hlt : index < chunks.length := by
        by_contra hge
        rw [List.drop_eq_nil_of_le (Nat.le_of_not_lt hge)] at hrest
        cases hrest
      rw [List.drop_eq_getElem_cons hlt, List.cons.injEq] at hrest
      obtain ⟨hget, rfl⟩ := hrest
      have hchunk : chunks[index]? = some chunk := by rw [List.getElem?_eq_getElem hlt, hget]
      have hbound := hfit.at_index A hchunk
      rw [Nat.zero_add] at hbound
      have hopen := hopens index chunk hchunk
      rw [List.take_succ_cons, records, record, decryptLoop]
      have hpack : structPack index = .ok (be32 index) := structPack_eq_ok.mpr ⟨hbound.1, rfl⟩
      have htake (n : ℕ) (rest : Bytes) : (be32 n ++ rest).take 4 = be32 n :=
        List.take_left' (be32_length n)
      have hdrop (n : ℕ) (rest : Bytes) : (be32 n ++ rest).drop 4 = rest :=
        List.drop_left' (be32_length n)
      simp only [List.append_assoc, htake, hdrop, be32_ne_nil, be32_length, ne_eq,
        not_true_eq_false, if_false, beValue_be32 hbound.2, List.take_left', List.drop_left', hpack,
        hopen]
      rw [ih, List.flatten_cons, List.append_assoc]

end Ideal

/-- `c` is a twenty-byte header with the magic, followed by the first `k` of the stored
records, where the object has more than `k`. The header may differ in its size field, and
when no record follows also in its nonce prefix. -/
def CutAtRecord (dek : Key) (noncePrefix : Bytes) (secretId : UUID) (version : ℕ)
    (source c : Bytes) : Prop :=
  ∃ k < (chunksOf chunkSize source).length, ∃ noncePrefix' sizeField : Bytes,
    noncePrefix'.length = 8 ∧ sizeField.length = 4 ∧ (k = 0 ∨ noncePrefix' = noncePrefix) ∧
    c = magic ++ noncePrefix' ++ sizeField ++
      records A dek noncePrefix (uuidBytes secretId ++ be32 version) 0
        ((chunksOf chunkSize source).take k)

/-- What the stored object promises for a byte string `c` found in its place: if `c` is accepted
then the plaintext is the original, and no strict prefix of the object is accepted. -/
def Intact (dek : Key) (secretId : UUID) (version : ℕ) (source object c : Bytes) : Prop :=
  (∀ out, decryptFile A dek secretId version c = .ok out → out = source) ∧
  (c <+: object → c ≠ object → ∀ out, decryptFile A dek secretId version c ≠ .ok out)

/-- The header check and the loop of `decrypt_file`, read backwards. -/
theorem decryptFile_eq_ok {dek : Key} {secretId : UUID} {version : ℕ} {c out : Bytes} :
    decryptFile A dek secretId version c = .ok out ↔
      version < 2 ^ 32 ∧ ∃ noncePrefix' sizeField body : Bytes,
        noncePrefix'.length = 8 ∧ sizeField.length = 4 ∧
        c = magic ++ noncePrefix' ++ sizeField ++ body ∧
        decryptLoop A dek noncePrefix' (uuidBytes secretId ++ be32 version) 0 body [] = .ok out := by
  unfold decryptFile
  constructor
  · intro h
    obtain ⟨packedVersion, hversion, h⟩ := bind_eq_ok.mp h
    obtain ⟨hbound, rfl⟩ := structPack_eq_ok.mp hversion
    simp only at h
    split at h
    · cases h
    · rename_i hheader
      rw [not_or, not_ne_iff, not_ne_iff] at hheader
      obtain ⟨hlength, hmagic⟩ := hheader
      have hlong : magic.length + 12 ≤ c.length := by
        rw [List.length_take] at hlength
        omega
      refine ⟨hbound, ((c.take (magic.length + 12)).drop magic.length).take 8,
        ((c.take (magic.length + 12)).drop magic.length).drop 8, c.drop (magic.length + 12),
        ?_, ?_, ?_, h⟩
      · simp only [List.length_take, List.length_drop]
        omega
      · simp only [List.length_take, List.length_drop]
        omega
      · have hhead : c.take (magic.length + 12) =
            magic ++ (c.take (magic.length + 12)).drop magic.length := by
          conv_lhs => rw [← List.take_append_drop magic.length (c.take (magic.length + 12)), hmagic]
        rw [List.append_assoc magic, List.take_append_drop, ← hhead, List.take_append_drop]
  · rintro ⟨hbound, noncePrefix', sizeField, body, hnonce, hsize, rfl, hloop⟩
    have hlength : (magic ++ noncePrefix' ++ sizeField).length = magic.length + 12 := by
      simp [hnonce, hsize]
    have htake : (magic ++ noncePrefix' ++ sizeField ++ body).take (magic.length + 12) =
        magic ++ noncePrefix' ++ sizeField := List.take_left' hlength
    have hdrop : (magic ++ noncePrefix' ++ sizeField ++ body).drop (magic.length + 12) = body :=
      List.drop_left' hlength
    have hmid : ((magic ++ noncePrefix' ++ sizeField).drop magic.length).take 8 = noncePrefix' := by
      rw [List.append_assoc, List.drop_left, ← hnonce, List.take_left]
    have hmagic : (magic ++ noncePrefix' ++ sizeField).take magic.length = magic := by
      rw [List.append_assoc, List.take_left]
    refine bind_eq_ok.mpr ⟨_, structPack_eq_ok.mpr ⟨hbound, rfl⟩, ?_⟩
    simp only [htake, hdrop, hmid, hmagic, hlength, ne_eq, not_true_eq_false, or_self, if_false]
    exact hloop

/-- The exact set of accepted byte strings and what each of them decrypts to. -/
theorem decryptFile_accepts {sha256 : Bytes → String} {dek : Key} {noncePrefix : Bytes}
    {secretId : UUID} {version : ℕ} {source : Bytes} {file : EncryptedFile}
    {extra : List SealCall}
    (h : encryptFile A sha256 dek noncePrefix secretId version source = .ok file)
    (hideal : A.IdealFor dek (file.calls ++ extra)) (hextra : ∀ q ∈ extra, q.aad = [])
    {c out : Bytes} :
    decryptFile A dek secretId version c = .ok out ↔
      ∃ k ≤ (chunksOf chunkSize source).length, ∃ noncePrefix' sizeField : Bytes,
        noncePrefix'.length = 8 ∧ sizeField.length = 4 ∧ (k = 0 ∨ noncePrefix' = noncePrefix) ∧
        c = magic ++ noncePrefix' ++ sizeField ++
          records A dek noncePrefix (uuidBytes secretId ++ be32 version) 0
            ((chunksOf chunkSize source).take k) ∧
        out = ((chunksOf chunkSize source).take k).flatten := by
  obtain ⟨hversion, hfit, -, -, -, hcalls⟩ := encryptFile_eq_ok A h
  rw [hcalls] at hideal
  rw [decryptFile_eq_ok]
  constructor
  · rintro ⟨-, noncePrefix', sizeField, body, hnonce, hsize, rfl, hloop⟩
    obtain ⟨k, hk, hsame, rfl, hout⟩ := decryptLoop_sound hideal hextra hfit hloop
    rw [List.drop_zero] at *
    exact ⟨k, hk, noncePrefix', sizeField, hnonce, hsize, hsame, rfl, by simpa using hout⟩
  · rintro ⟨k, hk, noncePrefix', sizeField, hnonce, hsize, hsame, rfl, rfl⟩
    refine ⟨hversion, noncePrefix', sizeField, _, hnonce, hsize, rfl, ?_⟩
    rcases hsame with rfl | rfl
    · rw [decryptLoop]
      simp [records]
    · have hopens : ∀ i chunk, (chunksOf chunkSize source)[i]? = some chunk →
          A.decrypt dek (noncePrefix' ++ be32 i) (A.encrypt dek (noncePrefix' ++ be32 i) chunk
            (uuidBytes secretId ++ be32 version ++ be32 i))
              (uuidBytes secretId ++ be32 version ++ be32 i) = some chunk := by
        intro i chunk hchunk
        refine (hideal _ _ _ _).mpr ⟨List.mem_append_left _ (mem_sealCalls.mpr ?_), rfl⟩
        exact ⟨i, hchunk, by simp, by simp⟩
      have hloop := @decryptLoop_complete _ A dek noncePrefix' _ _ hopens hfit 0 k []
      simpa using hloop

/-- The stored object keeps its promise for exactly those byte strings that are not the object
cut off at a record boundary. -/
theorem decryptFile_intact_iff (sha256 : Bytes → String) (dek : Key) (noncePrefix : Bytes)
    (secretId : UUID) (version : ℕ) (source : Bytes) (file : EncryptedFile)
    (extra : List SealCall) (hnonce : noncePrefix.length = 8)
    (h : encryptFile A sha256 dek noncePrefix secretId version source = .ok file)
    (hideal : A.IdealFor dek (file.calls ++ extra)) (hextra : ∀ q ∈ extra, q.aad = [])
    (c : Bytes) :
    Intact A dek secretId version source file.object c ↔
      ¬ CutAtRecord A dek noncePrefix secretId version source c := by
  have hflat : (chunksOf chunkSize source).flatten = source :=
    chunksOf_flatten (by decide) source
  obtain ⟨-, -, hobject, -⟩ := encryptFile_eq_ok A h
  constructor
  · rintro ⟨hsame, -⟩ ⟨k, hk, noncePrefix', sizeField, hlength, hsize, hor, hc⟩
    have haccept : decryptFile A dek secretId version c = .ok _ :=
      (decryptFile_accepts A h hideal hextra).mpr
      ⟨k, hk.le, noncePrefix', sizeField, hlength, hsize, hor, hc, rfl⟩
    have hshort := flatten_take_ne (fun _ => chunksOf_ne_nil) hk
    exact hshort ((hsame _ haccept).trans hflat.symm)
  · intro hcut
    -- an accepted string that is not cut off carries every record
    have hall {out : Bytes} (hout : decryptFile A dek secretId version c = .ok out) :
        ∃ noncePrefix' sizeField : Bytes, noncePrefix'.length = 8 ∧ sizeField.length = 4 ∧
          c = magic ++ noncePrefix' ++ sizeField ++
            records A dek noncePrefix (uuidBytes secretId ++ be32 version) 0
              (chunksOf chunkSize source) ∧ out = source := by
      obtain ⟨k, hk, noncePrefix', sizeField, hlength, hsize, hor, hc, rfl⟩ :=
        (decryptFile_accepts A h hideal hextra).mp hout
      rcases hk.lt_or_eq with hlt | rfl
      · exact (hcut ⟨k, hlt, noncePrefix', sizeField, hlength, hsize, hor, hc⟩).elim
      · rw [List.take_length] at hc
        exact ⟨noncePrefix', sizeField, hlength, hsize, hc, by rw [List.take_length, hflat]⟩
    refine ⟨fun out hout => ?_, fun hpre hne out hout => ?_⟩
    · obtain ⟨-, -, -, -, -, hsource⟩ := hall hout
      exact hsource
    · obtain ⟨noncePrefix', sizeField, hlength, hsize, hc, -⟩ := hall hout
      apply hne
      apply hpre.eq_of_length
      rw [hc, hobject]
      simp [hlength, hsize, hnonce]

section Sample

/-- A one-byte file under a cipher that opens exactly the one call made for it. -/
def sampleCalls : List SealCall :=
  sealCalls (List.replicate 8 0) (uuidBytes 7 ++ be32 1) 0 [[97]]

def sampleCipher : Aead Unit := Aead.tagged (List.replicate 16 0) sampleCalls

def sampleObject : Bytes :=
  magic ++ List.replicate 8 0 ++ be32 chunkSize ++
    records sampleCipher () (List.replicate 8 0) (uuidBytes 7 ++ be32 1) 0 [[97]]

theorem sample_chunks : chunksOf chunkSize [97] = [[97]] := by
  have htake : List.take chunkSize [(97 : UInt8)] = [97] := rfl
  have hdrop : List.drop chunkSize [(97 : UInt8)] = [] := rfl
  rw [chunksOf_of_nonempty (by simp [htake]), htake, hdrop, chunksOf_of_empty (by simp)]

theorem sample_encrypt : encryptFile sampleCipher (fun _ => "") () (List.replicate 8 0) 7 1
    [97] = .ok ⟨sampleObject, 1, "", sampleCalls⟩ := by
  simp only [encryptFile, encryptLoop, sample_chunks]
  rfl

theorem sample_ideal : sampleCipher.IdealFor () (sampleCalls ++ []) := by
  rw [List.append_nil]
  exact Aead.tagged_ideal _ _ _

theorem decryptFile_intact_iff_sample :
    Intact sampleCipher () 7 1 [97] sampleObject sampleObject ↔
      ¬ CutAtRecord sampleCipher () (List.replicate 8 0) 7 1 [97] sampleObject :=
  decryptFile_intact_iff sampleCipher (fun _ => "") () (List.replicate 8 0) 7 1 [97] _ []
    rfl sample_encrypt sample_ideal (by simp) sampleObject

/-- The twenty header bytes of the one-byte file are a strict prefix of its object, and
`decrypt_file` accepts them as the empty file. -/
theorem decryptFile_accepts_header_alone :
    (sampleObject.take 20 <+: sampleObject ∧ sampleObject.take 20 ≠ sampleObject) ∧
    decryptFile sampleCipher () 7 1 (sampleObject.take 20) = .ok [] ∧
    ¬ Intact sampleCipher () 7 1 [97] sampleObject (sampleObject.take 20) := by
  have haccept : decryptFile sampleCipher () 7 1 (sampleObject.take 20) = .ok [] := by
    refine (decryptFile_eq_ok sampleCipher).mpr ⟨by decide, List.replicate 8 0, be32 chunkSize, [],
      rfl, rfl, by decide, ?_⟩
    rw [decryptLoop]
    rfl
  refine ⟨⟨List.take_prefix _ _, by decide⟩, haccept, ?_⟩
  rintro ⟨hsame, -⟩
  exact absurd (hsame _ haccept) (by decide)

end Sample

end PhantomShare.FileCrypto

/-! ### A file comes back

With a correct cipher `decrypt_file` returns the file that `encrypt_file` was given, whatever its
length. The indices of the chunks fit their field, so no two chunks have the same nonce. -/

namespace PhantomShare.FileCrypto
open Foundations

variable {Key : Type} {A : Aead Key} {sha256 : Bytes → String} {dek : Key} {noncePrefix : Bytes}
  {secretId : UUID} {version : ℕ} {source : Bytes} {file : EncryptedFile}

theorem decryptFile_encryptFile (correct : A.Correct) (hnonce : noncePrefix.length = 8)
    (h : encryptFile A sha256 dek noncePrefix secretId version source = .ok file) :
    decryptFile A dek secretId version file.object = .ok source := by
  obtain ⟨hversion, hfit, hobject, -, -, -⟩ := encryptFile_eq_ok A h
  have hflat : (chunksOf chunkSize source).flatten = source := chunksOf_flatten (by decide) source
  have hloop := @decryptLoop_complete _ A dek noncePrefix _ _
    (fun i chunk _ => correct dek _ chunk _) hfit 0 (chunksOf chunkSize source).length []
  rw [List.drop_zero, List.take_length, List.nil_append, hflat] at hloop
  exact (decryptFile_eq_ok A).mpr
    ⟨hversion, noncePrefix, be32 chunkSize, _, hnonce, be32_length _, hobject, hloop⟩

/-- The nonces of consecutive indices that fit their field are different. -/
theorem sealCalls_nonces {key : Key} {aadPrefix : Bytes} {start : ℕ} {chunks : List Bytes}
    (hfit : RecordsFit A key noncePrefix aadPrefix start chunks) :
    ((sealCalls noncePrefix aadPrefix start chunks).map SealCall.nonce).Nodup := by
  induction chunks generalizing start with
  | nil => exact List.nodup_nil
  | cons chunk rest ih =>
    have hstart := hfit.1
    rw [sealCalls, List.map_cons, List.nodup_cons]
    refine ⟨?_, ih hfit.2.2⟩
    intro hmem
    rcases List.mem_map.mp hmem with ⟨call, hcall, hsame⟩
    rcases mem_sealCalls.mp hcall with ⟨i, hchunk, hnonce, _⟩
    have hbound := (hfit.2.2.at_index A hchunk).1
    rw [hnonce] at hsame
    have hindex := be32_injective hbound hstart (List.append_cancel_left hsame)
    omega

/-- No two chunks of an object have the same nonce. -/
theorem encryptFile_nonces
    (h : encryptFile A sha256 dek noncePrefix secretId version source = .ok file) :
    (file.calls.map SealCall.nonce).Nodup := by
  obtain ⟨-, hfit, -, -, -, hcalls⟩ := encryptFile_eq_ok A h
  rw [hcalls]
  exact sealCalls_nonces hfit

end PhantomShare.FileCrypto
