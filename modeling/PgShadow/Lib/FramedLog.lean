/-
# Length-prefixed records in a file

A file is a byte sequence read and written at positions. A record is framed by
its length in four bytes, most significant first. `Holds file off ps` says that
the frames of the records `ps` stand one after another from position `off`.

A frame read at `off` gives the first record (`Holds.header`, `Holds.payload`),
a frame written after the last record appends one (`Holds.append`), and
whatever else is written there, such as part of a frame, leaves the records
alone (`Holds.scribble`).

Key definitions: `readAt`, `writeAt`, `frame`, `frames`, `Holds`.
Key theorems: `Holds.append`, `Holds.scribble`, `Holds.rest`.
-/
import PgShadow.Lib.BigEndian

namespace FramedLog

/-- The bytes a frame's length takes. -/
abbrev headerLen : ℕ := 4

/-- `n` bytes at `off`, if they are all there. -/
def readAt (file : List UInt8) (off n : ℕ) : Option (List UInt8) :=
  if off + n ≤ file.length then some ((file.drop off).take n) else none

/-- Overwrite or extend at `off`; a gap past the end reads as zeros. -/
def writeAt (file : List UInt8) (off : ℕ) (data : List UInt8) : List UInt8 :=
  file.take off ++ (List.replicate (off - file.length) 0 ++ (data ++ file.drop (off + data.length)))

/-- A record with its length in front. -/
def frame (p : List UInt8) : List UInt8 := BigEndian.toBytes headerLen p.length ++ p

/-- The frames of the records, one after another. -/
def frames (ps : List (List UInt8)) : List UInt8 := ps.flatMap frame

/-- The frames of `ps` stand in the file from `off` on. -/
def Holds (file : List UInt8) (off : ℕ) (ps : List (List UInt8)) : Prop :=
  ∃ pre post, file = pre ++ (frames ps ++ post) ∧ pre.length = off

@[simp] theorem frames_nil : frames [] = [] := rfl

theorem frames_cons (p : List UInt8) (ps : List (List UInt8)) : frames (p :: ps) = frame p ++ frames ps := rfl

theorem frames_concat (ps : List (List UInt8)) (p : List UInt8) : frames (ps ++ [p]) = frames ps ++ frame p := by
  rw [frames, List.flatMap_append, List.flatMap_singleton]
  rfl

@[simp] theorem length_frame (p : List UInt8) : (frame p).length = headerLen + p.length := by
  rw [frame, List.length_append, BigEndian.length_toBytes]

theorem readAt_append (pre bs post : List UInt8) :
    readAt (pre ++ (bs ++ post)) pre.length bs.length = some bs := by
  have h : pre.length + bs.length ≤ (pre ++ (bs ++ post)).length := by
    simp only [List.length_append]
    omega
  rw [readAt, if_pos h, List.drop_left, List.take_left]

theorem writeAt_append (pre post data : List UInt8) :
    writeAt (pre ++ post) pre.length data = pre ++ (data ++ post.drop data.length) := by
  have hlen : pre.length - (pre ++ post).length = 0 := by
    rw [List.length_append]
    omega
  rw [writeAt, List.take_left, hlen, List.replicate_zero, List.nil_append, ← List.drop_drop, List.drop_left]

namespace Holds

variable {file : List UInt8} {off : ℕ} {p : List UInt8} {ps : List (List UInt8)}

theorem nil (h : off ≤ file.length) : Holds file off [] :=
  ⟨file.take off, file.drop off, (List.take_append_drop off file).symm, List.length_take_of_le h⟩

/-- The bytes from the first record to the last are the frames. -/
theorem region (h : Holds file off ps) : (file.drop off).take (frames ps).length = frames ps := by
  obtain ⟨pre, post, rfl, rfl⟩ := h
  rw [List.drop_left, List.take_left]

/-- The length at the front is that of the first record, if it fits. -/
theorem header (h : Holds file off (p :: ps)) (hp : p.length < 256 ^ headerLen) :
    (readAt file off headerLen).map BigEndian.ofBytes = some p.length := by
  obtain ⟨pre, post, rfl, rfl⟩ := h
  have hr := readAt_append pre (BigEndian.toBytes headerLen p.length) (p ++ (frames ps ++ post))
  rw [BigEndian.length_toBytes] at hr
  rw [frames_cons, frame, List.append_assoc, List.append_assoc, hr, Option.map_some,
    BigEndian.ofBytes_toBytes headerLen _ hp]

/-- Behind it stands the first record. -/
theorem payload (h : Holds file off (p :: ps)) : readAt file (off + headerLen) p.length = some p := by
  obtain ⟨pre, post, rfl, rfl⟩ := h
  have hr := readAt_append (pre ++ BigEndian.toBytes headerLen p.length) p (frames ps ++ post)
  rw [List.length_append, BigEndian.length_toBytes, List.append_assoc] at hr
  rw [frames_cons, frame, List.append_assoc, List.append_assoc]
  exact hr

/-- Past the first record stand the others. -/
theorem rest (h : Holds file off (p :: ps)) : Holds file (off + (headerLen + p.length)) ps := by
  obtain ⟨pre, post, rfl, rfl⟩ := h
  refine ⟨pre ++ frame p, post, ?_, by rw [List.length_append, length_frame]⟩
  rw [frames_cons, List.append_assoc, List.append_assoc]

/-- **What is written behind the records** leaves them alone. -/
theorem scribble (h : Holds file off ps) (data : List UInt8) :
    Holds (writeAt file (off + (frames ps).length) data) off ps := by
  obtain ⟨pre, post, rfl, rfl⟩ := h
  refine ⟨pre, data ++ post.drop data.length, ?_, rfl⟩
  rw [← List.append_assoc, ← List.length_append, writeAt_append, List.append_assoc]

/-- **A frame written behind the records** appends its record. -/
theorem append (h : Holds file off ps) (p : List UInt8) :
    Holds (writeAt file (off + (frames ps).length) (frame p)) off (ps ++ [p]) := by
  obtain ⟨pre, post, rfl, rfl⟩ := h
  refine ⟨pre, post.drop (frame p).length, ?_, rfl⟩
  rw [← List.append_assoc, ← List.length_append, writeAt_append, frames_concat, List.append_assoc,
    List.append_assoc]

end Holds
end FramedLog
