import Mathlib.Data.List.DropRight
import PhantomShare.Foundations.Bytes
import PhantomShare.World

/-!
# The object store and virus scans

`storage_service.py`: a call may fail and have had its effect all the same; a stored
object is replaced as a whole. `clamav_service.py`: what is sent to the scanner for a
file, and the verdict in its reply.
-/
namespace PhantomShare.StorageService
open Foundations

/-- `upload`, which returns the stored size. -/
def upload (content : Bytes) (key : ObjectKey) : Handler ℕ :=
  Program.perform (.objectPut key) fun _ w choice =>
    let stored := w.setObjects (w.objects.put ⟨key, content⟩)
    if choice.fails then some (if choice.landed then stored else w, .error .unavailable)
    else some (stored, .ok content.length)

/-- `download`; a missing object is an error of the client library. -/
def download (key : ObjectKey) : Handler Bytes :=
  Program.perform (.objectGet key) fun _ w choice =>
    if choice.fails then some (w, .error .unavailable)
    else
      match w.objects.find key with
      | some object => some (w, .ok object.content)
      | none => some (w, .error .unavailable)

/-- `delete`, which succeeds when there is no such object. -/
def delete (key : ObjectKey) : Handler Unit :=
  Program.perform (.objectDelete key) fun _ w choice =>
    let deleted := w.setObjects (w.objects.deleteWhere fun object => object.key = key)
    if choice.fails then some (if choice.landed then deleted else w, .error .unavailable)
    else some (deleted, .ok ())

end PhantomShare.StorageService

/-! ### Virus scans -/

namespace PhantomShare.ClamavService
open Foundations

inductive ScanStatus where
  | clean
  | infected
  deriving DecidableEq, Repr

/-- `b"zINSTREAM\0"`. -/
def command : Bytes := [122, 73, 78, 83, 84, 82, 69, 65, 77, 0]

/-- One iteration of the loop of `_scan`; `none` is a `struct.error`. -/
def writeChunk (written chunk : Bytes) : Option Bytes :=
  (packU32 chunk.length).map fun size => written ++ size ++ chunk

/-- All that `_scan` writes to the scanner. -/
def instream (source : Bytes) : Option Bytes := do
  let written ← (chunksOf (1024 * 1024) source).foldlM writeChunk command
  let terminator ← packU32 0
  return written ++ terminator

/-- `reader.readuntil(b"\0")` with the limit of the stream. -/
def readUntilNul (received : Bytes) : Option Bytes :=
  let before := received.takeWhile (· ≠ 0)
  if before.length < received.length ∧ before.length ≤ 64 * 1024 then some (before ++ [0]) else none

/-- `reply.rstrip(b"\0").decode("utf-8", "replace")`. -/
def decodeReply (reply : Bytes) : String := Utf8.decodeReplace (reply.rdropWhile (· = 0))

/-- What the end of a reply says. -/
def verdict (reply : String) : Except Exn (ScanStatus × String) :=
  if " OK".toList <:+ reply.toList then .ok (.clean, reply)
  else if " FOUND".toList <:+ reply.toList then .ok (.infected, reply)
  else .error (.runtimeError s!"Virus scanner returned an indeterminate result: {reply}")

def unavailable : Exn := .runtimeError "Virus scanner unavailable"

/-- The result of `_scan` when the exchange has not failed. -/
def received (reply : Bytes) : Except Exn (ScanStatus × String) :=
  match readUntilNul reply with
  | some reply => verdict (decodeReply reply)
  | none => .error unavailable

/-- `scan`. -/
def scan (source : Bytes) : Handler (ScanStatus × String) :=
  match instream source with
  | none => throw unavailable
  | some sent =>
    Program.perform (.scan sent) fun _ w choice =>
      if choice.fails then some (w, .error unavailable) else some (w, received choice.reply)

/-- The chunks of a file need no more than 20 bits for their length. -/
theorem chunk_length_lt {source chunk : Bytes} (h : chunk ∈ chunksOf (1024 * 1024) source) :
    chunk.length < 2 ^ 32 :=
  (chunksOf_length_le h).trans_lt (by decide)

theorem writeChunks_eq {chunks : List Bytes} (h : ∀ chunk ∈ chunks, chunk.length < 2 ^ 32)
    (written : Bytes) :
    chunks.foldlM writeChunk written = some (written ++ chunks.flatMap frame) := by
  induction chunks generalizing written with
  | nil => simp
  | cons chunk chunks ih =>
    have hsize : packU32 chunk.length = some (be32 chunk.length) :=
      packU32_eq_some.mpr ⟨h chunk List.mem_cons_self, rfl⟩
    have hrest := ih fun other hmem => h other (List.mem_cons_of_mem _ hmem)
    simp [writeChunk, hsize, hrest, frame]

/-- The command, a frame for each chunk and the terminator. -/
theorem instream_eq (source : Bytes) : instream source =
    some (command ++ ((chunksOf (1024 * 1024) source).flatMap frame ++ be32 0)) := by
  have hzero : packU32 0 = some (be32 0) := packU32_eq_some.mpr ⟨by decide, rfl⟩
  rw [instream, writeChunks_eq fun chunk hmem => chunk_length_lt hmem]
  simp [hzero]

/-- After the command stand frames of the bytes and one terminator, and nothing else. -/
def Conveys (source sent : Bytes) : Prop :=
  ∃ body chunks, sent = command ++ body ∧ readFrames body = some (chunks, []) ∧
    chunks.flatten = source

theorem instream_conveys {source sent : Bytes} (h : instream source = some sent) :
    Conveys source sent := by
  rw [instream_eq, Option.some.injEq] at h
  refine ⟨_, chunksOf (1024 * 1024) source, h.symm, ?_, chunksOf_flatten (by decide) source⟩
  have hchunks : ∀ chunk ∈ chunksOf (1024 * 1024) source, chunk ≠ [] ∧ chunk.length < 2 ^ 32 :=
    fun chunk hmem => ⟨chunksOf_ne_nil hmem, chunk_length_lt hmem⟩
  have hread := readFrames_frames hchunks []
  rwa [List.append_nil] at hread

theorem verdict_clean {reply detail : String} (h : verdict reply = .ok (.clean, detail)) :
    " OK".toList <:+ reply.toList ∧ detail = reply := by
  unfold verdict at h
  split at h
  · rename_i hend
    cases h
    exact ⟨hend, rfl⟩
  · split at h <;> cases h

/-- The scanner's reply ends with `" OK"`. -/
def Clears (reply : Bytes) : Prop :=
  ∃ text, readUntilNul reply = some text ∧ " OK".toList <:+ (decodeReply text).toList

theorem received_clean {reply : Bytes} {detail : String}
    (h : received reply = .ok (.clean, detail)) : Clears reply := by
  unfold received at h
  split at h
  · rename_i text htext
    exact ⟨text, htext, (verdict_clean h).1⟩
  · cases h

end PhantomShare.ClamavService
