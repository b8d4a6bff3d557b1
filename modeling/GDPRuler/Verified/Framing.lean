import Mathlib.Data.List.Basic

/-!
# Length-prefixed frames

A stream of messages in which each is preceded by its length, written in a
header of fixed width.  How a length is written is the parameter `Header`; it
may only represent lengths below a bound.

Two things are said about such streams.  A whole frame at the front is read
back, whatever follows (`split_frame_append`), and a stream that ends early,
anywhere, still determines the messages that arrived completely and how much
of the next frame did (`received` and `remainder`, which
`take_frames_cons_of_le` and `take_frames_cons_of_lt` compute).
-/

namespace GDPRuler.Verified.Framing

universe u

/-- A way of writing lengths below `bound` in `width` symbols. -/
structure Header (α : Type u) where
  width : Nat
  bound : Nat
  write : Nat → List α
  read : List α → Nat
  length_write : ∀ n, (write n).length = width
  read_write : ∀ n, n < bound → read (write n) = n

variable {α : Type u} (h : Header α)

/-- A message behind its length. -/
def frame (message : List α) : List α := h.write message.length ++ message

/-- The frames of several messages. -/
def frames (messages : List (List α)) : List α := messages.flatMap (frame h)

/-- The first message and what follows its frame, if the frame is whole. -/
def split (s : List α) : Option (List α × List α) :=
  if s.length < h.width + h.read (s.take h.width) then none
  else some ((s.drop h.width).take (h.read (s.take h.width)),
    s.drop (h.width + h.read (s.take h.width)))

@[simp] theorem length_frame (message : List α) :
    (frame h message).length = h.width + message.length := by
  simp [frame, h.length_write]

theorem frame_ne_nil (hWidth : 0 < h.width) (message : List α) :
    frame h message ≠ [] := by
  intro hNil
  have hLength := congrArg List.length hNil
  rw [length_frame, List.length_nil] at hLength
  omega

@[simp] theorem frames_cons (message : List α) (messages : List (List α)) :
    frames h (message :: messages) = frame h message ++ frames h messages := by
  simp [frames]

/-- The header of a frame, when at least that much of it is there. -/
theorem take_width_frame (message rest : List α) :
    (frame h message ++ rest).take h.width = h.write message.length := by
  rw [frame, List.append_assoc, ← h.length_write message.length,
    List.take_left]

theorem drop_width_frame (message rest : List α) :
    (frame h message ++ rest).drop h.width = message ++ rest := by
  rw [frame, List.append_assoc, ← h.length_write message.length,
    List.drop_left]

/-- **A whole frame is read back**, and what follows is left. -/
theorem split_frame_append {message : List α}
    (hBound : message.length < h.bound) (rest : List α) :
    split h (frame h message ++ rest) = some (message, rest) := by
  have hSize : h.read ((frame h message ++ rest).take h.width) =
      message.length := by
    rw [take_width_frame, h.read_write _ hBound]
  have hWhole : ¬ (frame h message ++ rest).length <
      h.width + message.length := by
    simp only [List.length_append, length_frame]
    omega
  rw [split, hSize, if_neg hWhole, drop_width_frame, List.take_left,
    ← length_frame h message, List.drop_left]

/-! ## Streams that end early -/

/-- The messages whose frames are whole among the first `cut` symbols. -/
def received : List (List α) → Nat → List (List α)
  | [], _ => []
  | message :: messages, cut =>
      if cut < (frame h message).length then []
      else message :: received messages (cut - (frame h message).length)

/-- How much of the next frame is there. -/
def remainder : List (List α) → Nat → Nat
  | [], _ => 0
  | message :: messages, cut =>
      if cut < (frame h message).length then cut
      else remainder messages (cut - (frame h message).length)

variable {h}

theorem take_frames_cons_of_lt {message : List α} {messages : List (List α)}
    {cut : Nat} (hCut : cut < (frame h message).length) :
    (frames h (message :: messages)).take cut = (frame h message).take cut := by
  rw [frames_cons, List.take_append_of_le_length (Nat.le_of_lt hCut)]

theorem take_frames_cons_of_le {message : List α} {messages : List (List α)}
    {cut : Nat} (hCut : (frame h message).length ≤ cut) :
    (frames h (message :: messages)).take cut = frame h message ++
      (frames h messages).take (cut - (frame h message).length) := by
  rw [frames_cons, List.take_append, List.take_of_length_le hCut]

end GDPRuler.Verified.Framing
