import Mathlib.Data.List.Basic
import Mathlib.Data.List.Infix
import Mathlib.Data.Nat.Notation
import Mathlib.Tactic.Ring

/-!
# Byte strings

Byte strings are lists of octets. A 32-bit word is written in network order, and
writing a number that does not fit is refused. A file is read by taking a bounded
number of bytes from what is left of it. On byte strings work length-prefixed frames,
the decoding of UTF-8 and authenticated encryption.
-/
namespace PhantomShare.Foundations

abbrev Bytes := List UInt8

/-- The four octets of a number modulo 2^32, most significant first. -/
def be32 (n : ℕ) : Bytes :=
  [UInt8.ofNat (n / 2 ^ 24), UInt8.ofNat (n / 2 ^ 16), UInt8.ofNat (n / 2 ^ 8), UInt8.ofNat n]

/-- The number that a network-order octet string denotes. -/
def beValue (raw : Bytes) : ℕ := raw.foldl (fun acc b => acc * 256 + b.toNat) 0

/-- `struct.pack(">I", n)`: `none` is the `struct.error` of a number out of range. -/
def packU32 (n : ℕ) : Option Bytes := if n < 2 ^ 32 then some (be32 n) else none

@[simp] theorem be32_length (n : ℕ) : (be32 n).length = 4 := rfl

theorem be32_ne_nil (n : ℕ) : be32 n ≠ [] := by simp [be32]

theorem beValue_be32 {n : ℕ} (hn : n < 2 ^ 32) : beValue (be32 n) = n := by
  simp only [beValue, be32, List.foldl_cons, List.foldl_nil, UInt8.toNat_ofNat']
  omega

theorem be32_beValue {raw : Bytes} (h : raw.length = 4) : be32 (beValue raw) = raw := by
  obtain ⟨a, b, c, d, rfl⟩ : ∃ a b c d, raw = [a, b, c, d] := by
    match raw, h with
    | [a, b, c, d], _ => exact ⟨a, b, c, d, rfl⟩
  have ha := a.toNat_lt
  have hb := b.toNat_lt
  have hc := c.toNat_lt
  have hd := d.toNat_lt
  simp only [beValue, be32, List.foldl_cons, List.foldl_nil, List.cons.injEq, and_true,
    ← UInt8.toNat_inj, UInt8.toNat_ofNat']
  refine ⟨?_, ?_, ?_, ?_⟩ <;> omega

theorem be32_injective {m n : ℕ} (hm : m < 2 ^ 32) (hn : n < 2 ^ 32) (h : be32 m = be32 n) :
    m = n := by
  rw [← beValue_be32 hm, h, beValue_be32 hn]

theorem packU32_eq_some {n : ℕ} {raw : Bytes} :
    packU32 n = some raw ↔ n < 2 ^ 32 ∧ raw = be32 n := by
  unfold packU32
  split <;> simp_all [eq_comm]

/-- The pieces that `while chunk := src.read(size)` sees, in order. -/
def chunksOf (size : ℕ) (src : Bytes) : List Bytes :=
  if src.take size = [] then []
  else src.take size :: chunksOf size (src.drop size)
termination_by src.length
decreasing_by
  rename_i h
  have hne : size ≠ 0 ∧ src ≠ [] := by simpa [not_or] using h
  have hpos := List.length_pos_of_ne_nil hne.2
  rw [List.length_drop]
  omega

theorem chunksOf_of_empty {size : ℕ} {src : Bytes} (h : src.take size = []) :
    chunksOf size src = [] := by
  rw [chunksOf, if_pos h]

theorem chunksOf_of_nonempty {size : ℕ} {src : Bytes} (h : src.take size ≠ []) :
    chunksOf size src = src.take size :: chunksOf size (src.drop size) := by
  rw [chunksOf, if_neg h]

theorem chunksOf_ne_nil {size : ℕ} {src c : Bytes} (h : c ∈ chunksOf size src) : c ≠ [] := by
  fun_induction chunksOf size src with
  | case1 src he => simp at h
  | case2 src he ih =>
    rcases List.mem_cons.mp h with rfl | h
    · exact he
    · exact ih h

theorem chunksOf_length_le {size : ℕ} {src c : Bytes} (h : c ∈ chunksOf size src) :
    c.length ≤ size := by
  fun_induction chunksOf size src with
  | case1 src he => simp at h
  | case2 src he ih =>
    rcases List.mem_cons.mp h with rfl | h
    · exact List.length_take_le size src
    · exact ih h

theorem chunksOf_flatten {size : ℕ} (hsize : 0 < size) (src : Bytes) :
    (chunksOf size src).flatten = src := by
  fun_induction chunksOf size src with
  | case1 src he =>
    have hsrc : src = [] := by
      rcases List.take_eq_nil_iff.mp he with h | h
      · omega
      · exact h
    rw [hsrc, List.flatten_nil]
  | case2 src he ih => rw [List.flatten_cons, ih, List.take_append_drop]

/-- Losing a nonempty tail of nonempty pieces changes the joined bytes. -/
theorem flatten_take_ne {pieces : List Bytes} (hne : ∀ c ∈ pieces, c ≠ []) {k : ℕ}
    (hk : k < pieces.length) : (pieces.take k).flatten ≠ pieces.flatten := by
  intro h
  have hsplit : (pieces.take k).flatten ++ (pieces.drop k).flatten = pieces.flatten := by
    rw [← List.flatten_append, List.take_append_drop]
  have hnil : (pieces.drop k).flatten = [] := by
    rw [← h] at hsplit
    simpa using hsplit
  rw [List.drop_eq_getElem_cons hk, List.flatten_cons, List.append_eq_nil_iff] at hnil
  exact hne _ (List.getElem_mem hk) hnil.1

end PhantomShare.Foundations

/-! ### Length-prefixed frames

A frame is the length of a chunk as a 32-bit word in network order and the chunk. A row of frames
ends with a frame of length zero. A reader takes frames up to that one and returns the chunks and
what it has left unread. -/

namespace PhantomShare.Foundations

def frame (chunk : Bytes) : Bytes := be32 chunk.length ++ chunk

/-- Read frames up to the first of length zero; `none` when the bytes end before. -/
def readFrames (src : Bytes) : Option (List Bytes × Bytes) :=
  if (src.take 4).length = 4 then
    let length := beValue (src.take 4)
    if length = 0 then some ([], src.drop 4)
    else
      if ((src.drop 4).take length).length = length then
        (readFrames ((src.drop 4).drop length)).map fun (chunks, rest) =>
          ((src.drop 4).take length :: chunks, rest)
      else none
  else none
termination_by src.length
decreasing_by
  simp only [List.length_take, List.length_drop] at *
  omega

theorem readFrames_terminator (rest : Bytes) : readFrames (be32 0 ++ rest) = some ([], rest) := by
  have hzero : beValue (be32 0) = 0 := beValue_be32 (by decide)
  rw [readFrames, List.take_left' (be32_length 0), List.drop_left' (be32_length 0)]
  simp [hzero]

theorem readFrames_frame {chunk : Bytes} (hne : chunk ≠ []) (hlength : chunk.length < 2 ^ 32)
    (rest : Bytes) : readFrames (frame chunk ++ rest) =
      (readFrames rest).map fun (chunks, left) => (chunk :: chunks, left) := by
  have hvalue : beValue (be32 chunk.length) = chunk.length := beValue_be32 hlength
  have hpos : chunk.length ≠ 0 := by simpa using hne
  have htake : (frame chunk ++ rest).take 4 = be32 chunk.length := by
    rw [frame, List.append_assoc, List.take_left' (be32_length _)]
  have hdrop : (frame chunk ++ rest).drop 4 = chunk ++ rest := by
    rw [frame, List.append_assoc, List.drop_left' (be32_length _)]
  rw [readFrames, htake, hdrop, hvalue]
  simp [hpos]

/-- Reading frames of nonempty chunks and a terminator returns the chunks. -/
theorem readFrames_frames {chunks : List Bytes}
    (h : ∀ chunk ∈ chunks, chunk ≠ [] ∧ chunk.length < 2 ^ 32) (rest : Bytes) :
    readFrames (chunks.flatMap frame ++ be32 0 ++ rest) = some (chunks, rest) := by
  induction chunks with
  | nil => exact readFrames_terminator rest
  | cons chunk chunks ih =>
    have hchunk := h chunk List.mem_cons_self
    have hrest := ih fun other hmem => h other (List.mem_cons_of_mem _ hmem)
    rw [List.flatMap_cons, List.append_assoc, List.append_assoc,
      readFrames_frame hchunk.1 hchunk.2, ← List.append_assoc, hrest]
    rfl

end PhantomShare.Foundations

/-! ### Decoding UTF-8 with replacement

`bytes.decode("utf-8", "replace")` as an automaton over the bytes. The longest start of a character
that cannot be continued becomes one U+FFFD. -/

namespace PhantomShare.Foundations.Utf8

/-- A character that has begun: the bits read, the bytes missing and the range of the next one. -/
structure Begun where
  bits : ℕ
  missing : ℕ
  low : ℕ := 0x80
  high : ℕ := 0xBF

/-- What the first byte of a character announces. -/
def begin (b : ℕ) : Option Begun :=
  if 0xC2 ≤ b ∧ b ≤ 0xDF then some { bits := b - 0xC0, missing := 1 }
  else if b = 0xE0 then some { bits := 0, missing := 2, low := 0xA0 }
  else if b = 0xED then some { bits := 0xD, missing := 2, high := 0x9F }
  else if 0xE1 ≤ b ∧ b ≤ 0xEF then some { bits := b - 0xE0, missing := 2 }
  else if b = 0xF0 then some { bits := 0, missing := 3, low := 0x90 }
  else if 0xF1 ≤ b ∧ b ≤ 0xF3 then some { bits := b - 0xF0, missing := 3 }
  else if b = 0xF4 then some { bits := 4, missing := 3, high := 0x8F }
  else none

def replacement : Char := '\uFFFD'

/-- A byte where no character has begun. -/
def first (b : ℕ) : List Char × Option Begun :=
  if b < 0x80 then ([Char.ofNat b], none)
  else
    match begin b with
    | some begun => ([], some begun)
    | none => ([replacement], none)

def step : Option Begun → ℕ → List Char × Option Begun
  | none, b => first b
  | some begun, b =>
    if begun.low ≤ b ∧ b ≤ begun.high then
      let bits := begun.bits * 64 + (b - 0x80)
      if begun.missing = 1 then ([Char.ofNat bits], none)
      else ([], some { bits := bits, missing := begun.missing - 1 })
    else
      let (chars, begun) := first b
      (replacement :: chars, begun)

def decodeFrom : Option Begun → Bytes → List Char
  | none, [] => []
  | some _, [] => [replacement]
  | begun, b :: rest =>
    let (chars, next) := step begun b.toNat
    chars ++ decodeFrom next rest

/-- `bytes.decode("utf-8", "replace")`. -/
def decodeReplace (bytes : Bytes) : String := String.ofList (decodeFrom none bytes)

example : decodeReplace [0xE2, 0x82, 0xAC, 0xE0, 0x80, 0x41, 0xF0, 0x90] =
    "€\uFFFD\uFFFDA\uFFFD" := by decide

end PhantomShare.Foundations.Utf8

/-! ### Authenticated encryption with associated data

A cipher is a pair of functions of key, nonce, data and associated data, where decryption may
refuse. Two readings of a sound cipher are used: a correct cipher opens what it sealed, and an ideal
cipher opens nothing else. The ideal reading is relative to the calls made under one key. -/

namespace PhantomShare.Foundations

/-- `ChaCha20Poly1305(key)`: a failed `decrypt` raises `InvalidTag`, here `none`. -/
structure Aead (Key : Type) where
  encrypt : (key : Key) → (nonce data aad : Bytes) → Bytes
  decrypt : (key : Key) → (nonce data aad : Bytes) → Option Bytes

/-- The arguments of one `encrypt` call under a fixed key. -/
structure SealCall where
  nonce : Bytes
  plaintext : Bytes
  aad : Bytes
  deriving DecidableEq, Repr

namespace Aead
variable {Key : Type}

/-- Decryption inverts encryption under the same key, nonce and associated data. -/
def Correct (A : Aead Key) : Prop :=
  ∀ key nonce plaintext aad,
    A.decrypt key nonce (A.encrypt key nonce plaintext aad) aad = some plaintext

/-- Under `key`, decryption succeeds exactly on the outputs of the listed calls. -/
def IdealFor (A : Aead Key) (key : Key) (calls : List SealCall) : Prop :=
  ∀ nonce data aad plaintext, A.decrypt key nonce data aad = some plaintext ↔
    ⟨nonce, plaintext, aad⟩ ∈ calls ∧ A.encrypt key nonce plaintext aad = data

/-- A cipher that appends a fixed tag and opens exactly the listed calls. -/
def tagged (tag : Bytes) (calls : List SealCall) : Aead Key where
  encrypt _ _ data _ := data ++ tag
  decrypt _ nonce data aad :=
    (calls.find? fun q => q.nonce = nonce ∧ q.aad = aad ∧ q.plaintext ++ tag = data).map
      SealCall.plaintext

/-- The ideal reading is satisfiable for every list of calls. -/
theorem tagged_ideal (tag : Bytes) (calls : List SealCall) (key : Key) :
    (tagged tag calls).IdealFor key calls := by
  intro nonce data aad plaintext
  simp only [tagged, Option.map_eq_some_iff]
  constructor
  · rintro ⟨q, hq, rfl⟩
    have hprop := List.find?_some hq
    simp only [decide_eq_true_eq] at hprop
    obtain ⟨rfl, rfl, rfl⟩ := hprop
    exact ⟨List.mem_of_find?_eq_some hq, rfl⟩
  · rintro ⟨hmem, rfl⟩
    have hsome : (calls.find? fun q => decide (q.nonce = nonce ∧ q.aad = aad ∧
        q.plaintext ++ tag = plaintext ++ tag)).isSome := by
      rw [List.find?_isSome]
      exact ⟨_, hmem, by simp⟩
    obtain ⟨q, hq⟩ := Option.isSome_iff_exists.mp hsome
    refine ⟨q, hq, ?_⟩
    have hprop := List.find?_some hq
    simp only [decide_eq_true_eq] at hprop
    exact List.append_cancel_right hprop.2.2

end Aead
end PhantomShare.Foundations
