import GDPRuler.Verified.Framing
import GDPRuler.Controller.Handlers

/-!
# Connections

A client sends messages behind their sizes, four bytes in network order.  The
first is its policy, which is acknowledged and then read; every other is a
query, which is served.  `handle_connection` takes one message after another
into a buffer of `max_msg_size` bytes, puts a terminator behind it and reads
it as a C string.

What the code does at the edges is kept.  The size is read into a variable
that is not initialized, and used also when fewer than four bytes came; a
message that ends early is taken as far as it came; and the terminator is put
where the message ends, wherever that is.
-/

namespace GDPRuler.Controller

open GDPRuler.Verified

def maxMsgSize : Nat := 4096

/-! ## Sockets -/

/-- `ntohl` of four bytes in memory. -/
def networkValue (bytes : Str) : Nat := memoryValue bytes.reverse

/-- Sizes in network order. -/
def networkHeader : Framing.Header UInt8 where
  width := 4
  bound := 2 ^ 32
  write n := (memoryBytes 4 n).reverse
  read := networkValue
  length_write n := by rw [List.length_reverse, length_memoryBytes]
  read_write n h := by
    rw [networkValue, List.reverse_reverse, memoryValue_memoryBytes (by omega)]

/-- What a client sends until it closes the connection, or the connection
breaks. -/
structure Stream where
  bytes : Str
  broken : Bool := false

/-- `recv` with `MSG_WAITALL`: as many bytes, or those there are before the
end.  At the end there are none, or an error. -/
def Stream.recvAll (n : Nat) (s : Stream) : Option Str × Stream :=
  if s.bytes = [] ∧ s.broken = true then (none, s)
  else (some (s.bytes.take n), { s with bytes := s.bytes.drop n })

/-- What `safe_sock_receive` did. -/
structure Reception where
  /-- How many bytes of the size had come when it was used. -/
  sizeBytes : Option Nat
  /-- The bytes put into the buffer; `none` is a negative result. -/
  data : Option Str
  rest : Stream

/-- `safe_sock_receive`; `unset` is what the variable for the size holds. -/
def safeSockReceive (unset : Str) (s : Stream) : Reception :=
  match s.recvAll 4 with
  | (none, rest) => ⟨none, none, rest⟩
  | (some header, rest) =>
      let msgSize :=
        networkValue ((header ++ unset.drop header.length).take 4)
      if maxMsgSize < msgSize then ⟨some header.length, none, rest⟩
      else ⟨some header.length, (rest.recvAll msgSize).1,
        (rest.recvAll msgSize).2⟩

/-- A text as C sees it: up to the first `'\0'`. -/
def cString (data : Str) : Str := data.takeWhile (· ≠ 0)

/-- One turn of receiving: how much of the size there was, the length of the
part of the buffer that was written, the terminator included, and the text,
unless the connection is given up. -/
structure Round where
  sizeBytes : Option Nat
  written : Nat
  text : Option Str
  deriving DecidableEq

/-- Receive, and terminate what was received. -/
def receiveText (unset : Str) (s : Stream) : Round × Stream :=
  let reception := safeSockReceive unset s
  match reception.data with
  | none => (⟨reception.sizeBytes, 0, none⟩, reception.rest)
  | some data =>
      if data = [] then (⟨reception.sizeBytes, 0, none⟩, reception.rest)
      else (⟨reception.sizeBytes, data.length + 1, some (cString data)⟩,
        reception.rest)

/-! ## Serving -/

/-- What raised an exception: the constructor of the policy, that of a query,
or the handler of a request. -/
inductive RaisedBy
  | policy | query | handler
  deriving DecidableEq

/-- Whether the connection goes on after a message. -/
inductive Verdict
  | goOn
  | leave
  | raise (source : RaisedBy) (e : Exn)
  deriving DecidableEq

/-- What surrounds a turn: the uninitialized size, the readings of the request,
and whether the answer could be sent. -/
structure Surroundings where
  unset : Str
  readings : Readings
  sent : Bool

/-- A connection, before or after its policy is set. -/
structure Session (σ : Type) where
  policy : Option DefaultPolicy
  world : World σ

variable {σ : Type}

/-- A text is the policy, if there is none yet, and a query otherwise.  The
policy is acknowledged before it is read. -/
def Session.handle (env : Environment σ) (around : Surroundings) (text : Str)
    (s : Session σ) : Verdict × Session σ :=
  match s.policy with
  | none =>
      if !around.sent then (.leave, s)
      else
        match DefaultPolicy.ofText text with
        | .error e => (.raise .policy e, s)
        | .ok policy => (.goOn, { s with policy := some policy })
  | some policy =>
      match Query.ofText text with
      | .error e => (.raise .query e, s)
      | .ok q =>
          if q.cmd = lit "exit" then (.leave, s)
          else
            match World.serve env ⟨q, policy, around.readings⟩ s.world with
            | (.error e, w) => (.raise .handler e, { s with world := w })
            | (.ok response, w) =>
                if maxMsgSize < response.length then
                  (.leave, { s with world := w })
                else if !around.sent then (.leave, { s with world := w })
                else (.goOn, { s with world := w })

/-- How a connection ends: closed, or with an exception that nothing catches
and that ends the controller. -/
inductive Ending
  | closed
  | raised (source : RaisedBy) (e : Exn)
  | running
  deriving DecidableEq

/-- The turns of a connection, its end, and what it leaves behind. -/
structure Conversation (σ : Type) where
  rounds : List Round
  ending : Ending
  session : Session σ

def Conversation.texts (c : Conversation σ) : List Str :=
  c.rounds.filterMap Round.text

/-- The loop of `handle_connection`, for at most `n` turns, the first of them
numbered `i`. -/
def converse (env : Environment σ) (around : Nat → Surroundings) :
    Nat → Nat → Stream → Session σ → Conversation σ
  | 0, _, _, s => ⟨[], .running, s⟩
  | n + 1, i, stream, s =>
      let received := receiveText (around i).unset stream
      match received.1.text with
      | none => ⟨[received.1], .closed, s⟩
      | some text =>
          let handled := s.handle env (around i) text
          match handled.1 with
          | .leave => ⟨[received.1], .closed, handled.2⟩
          | .raise source e => ⟨[received.1], .raised source e, handled.2⟩
          | .goOn =>
              let later :=
                converse env around n (i + 1) received.2 handled.2
              { later with rounds := received.1 :: later.rounds }

/-- `handle_connection`.  Every turn but the last takes bytes off the stream,
which bounds the turns. -/
def handleConnection (env : Environment σ) (around : Nat → Surroundings)
    (stream : Stream) (w : World σ) : Conversation σ :=
  converse env around (stream.bytes.length + 1) 0 stream ⟨none, w⟩

/-- The messages up to the one that ends the conversation, and whether there
is one. -/
def hear (env : Environment σ) (around : Nat → Surroundings) :
    Nat → List Str → Session σ → List Str × Bool
  | _, [], _ => ([], false)
  | i, message :: messages, s =>
      match (s.handle env (around i) message).1 with
      | .goOn =>
          let later := hear env around (i + 1) messages
            (s.handle env (around i) message).2
          (message :: later.1, later.2)
      | _ => ([message], true)

/-- The texts that come over a connection, whatever becomes of them. -/
def deliver (around : Nat → Surroundings) : Nat → Nat → Stream → List Str
  | 0, _, _ => []
  | n + 1, i, stream =>
      let received := receiveText (around i).unset stream
      match received.1.text with
      | none => []
      | some text => text :: deliver around n (i + 1) received.2

/-- The texts on a stream, at most one a byte. -/
def Stream.texts (around : Nat → Surroundings) (stream : Stream) : List Str :=
  deliver around (stream.bytes.length + 1) 0 stream

/-- The stream of a client that sends some messages and closes. -/
def clientStream (messages : List Str) : Stream :=
  { bytes := Framing.frames networkHeader messages }

/-- A policy as clients send it. -/
def alicePolicyText : Str :=
  lit "-sessionKey alice -encryption false -purpose purpose1 -objection" ++
    lit " purpose1 -origin home -expTime 0 -monitor true -objShare"

/-- Surroundings in which everything can be sent. -/
def Surroundings.calm : Surroundings :=
  ⟨List.replicate 4 0, Readings.constant 0, true⟩

/-! ## Receiving -/

/-- Behind a size that came as a whole, as many bytes are read. -/
theorem safeSockReceive_header {size : Nat} (hMax : size ≤ maxMsgSize)
    (unset body : Str) (broken : Bool) :
    safeSockReceive unset ⟨networkHeader.write size ++ body, broken⟩ =
      ⟨some 4, (Stream.recvAll size ⟨body, broken⟩).1,
        (Stream.recvAll size ⟨body, broken⟩).2⟩ := by
  have hLength : (networkHeader.write size).length = 4 :=
    networkHeader.length_write _
  have hTake : (networkHeader.write size ++ body).take 4 =
      networkHeader.write size :=
    (congrArg (List.take · _) hLength.symm).trans List.take_left
  have hDrop : (networkHeader.write size ++ body).drop 4 = body :=
    (congrArg (List.drop · _) hLength.symm).trans List.drop_left
  have hHeader : (networkHeader.write size ++ unset.drop 4).take 4 =
      networkHeader.write size :=
    (congrArg (List.take · _) hLength.symm).trans List.take_left
  have hThere : ¬ (networkHeader.write size ++ body = [] ∧ broken = true) := by
    rintro ⟨hNil, -⟩
    rw [(List.append_eq_nil_iff.mp hNil).1] at hLength
    cases hLength
  have hRecv : Stream.recvAll 4 ⟨networkHeader.write size ++ body, broken⟩ =
      (some (networkHeader.write size), ⟨body, broken⟩) := by
    rw [Stream.recvAll, if_neg hThere, hTake, hDrop]
  have hSize : networkValue (networkHeader.write size) = size :=
    networkHeader.read_write _ (Nat.lt_of_le_of_lt hMax (by decide))
  have hFits : ¬ maxMsgSize < size := by omega
  unfold safeSockReceive
  simp only [hRecv, hLength, hHeader, hSize, if_neg hFits]

/-- A message that is there as a whole is received as a whole. -/
theorem receiveText_frame {message : Str} (hNonempty : message ≠ [])
    (hMax : message.length ≤ maxMsgSize) (unset rest : Str) (broken : Bool) :
    receiveText unset
        ⟨Framing.frame networkHeader message ++ rest, broken⟩ =
      (⟨some 4, message.length + 1, some (cString message)⟩,
        ⟨rest, broken⟩) := by
  have hThere : ¬ (message ++ rest = [] ∧ broken = true) := by
    simp [hNonempty]
  unfold receiveText
  rw [Framing.frame, List.append_assoc, safeSockReceive_header hMax,
    Stream.recvAll, if_neg hThere]
  simp only [List.take_left, List.drop_left, if_neg hNonempty]

theorem sizeBytes_receiveText (unset : Str) (stream : Stream) :
    (receiveText unset stream).1.sizeBytes =
      (safeSockReceive unset stream).sizeBytes := by
  unfold receiveText
  cases hData : (safeSockReceive unset stream).data with
  | none => simp only [hData]
  | some data =>
      simp only [hData]
      split <;> rfl

/-- How much of the size there was. -/
theorem sizeBytes_safeSockReceive (unset : Str) (stream : Stream) :
    (safeSockReceive unset stream).sizeBytes =
      if stream.bytes = [] ∧ stream.broken = true then none
      else some (min 4 stream.bytes.length) := by
  unfold safeSockReceive Stream.recvAll
  by_cases hEnd : stream.bytes = [] ∧ stream.broken = true
  · rw [if_pos hEnd, if_pos hEnd]
  · rw [if_neg hEnd, if_neg hEnd]
    simp only [List.length_take]
    split <;> rfl

/-- What is received fits into the buffer and was on the stream. -/
theorem safeSockReceive_data {unset : Str} {stream : Stream} {data : Str}
    (hData : (safeSockReceive unset stream).data = some data) :
    data.length ≤ maxMsgSize ∧
      (safeSockReceive unset stream).rest.bytes.length + data.length ≤
        stream.bytes.length := by
  unfold safeSockReceive at hData ⊢
  cases hHeader : stream.recvAll 4 with
  | mk header rest =>
      rw [hHeader] at hData
      cases header with
      | none => cases hData
      | some header =>
          have hRest : rest.bytes.length ≤ stream.bytes.length := by
            unfold Stream.recvAll at hHeader
            split at hHeader
            · cases hHeader
            · cases hHeader
              simp
          simp only at hData ⊢
          split at hData
          · cases hData
          · rename_i hMax
            unfold Stream.recvAll at hData ⊢
            rw [if_neg hMax]
            split at hData
            · cases hData
            · rename_i hThere
              simp only [Option.some.injEq] at hData
              rw [← hData, if_neg hThere]
              simp only [List.length_take, List.length_drop]
              omega

/-- What is parsed is the front of what was received. -/
theorem receiveText_text {unset : Str} {stream : Stream} {text : Str}
    (hText : (receiveText unset stream).1.text = some text) :
    ∃ data, data ≠ [] ∧ (safeSockReceive unset stream).data = some data ∧
      text = cString data ∧
      (receiveText unset stream).2 = (safeSockReceive unset stream).rest := by
  unfold receiveText at hText ⊢
  cases hData : (safeSockReceive unset stream).data with
  | none =>
      simp only [hData] at hText
      cases hText
  | some data =>
      simp only [hData] at hText ⊢
      by_cases hNil : data = []
      · rw [if_pos hNil] at hText
        cases hText
      · rw [if_neg hNil] at hText ⊢
        exact ⟨data, hNil, rfl, (Option.some.inj hText).symm, rfl⟩

theorem length_text_le {unset : Str} {stream : Stream} {text : Str}
    (hText : (receiveText unset stream).1.text = some text) :
    text.length ≤ maxMsgSize := by
  obtain ⟨data, -, hData, rfl, -⟩ := receiveText_text hText
  exact Nat.le_trans (List.takeWhile_sublist _).length_le
    (safeSockReceive_data hData).1

/-- Every text takes bytes off the stream. -/
theorem length_rest_lt {unset : Str} {stream : Stream} {text : Str}
    (hText : (receiveText unset stream).1.text = some text) :
    (receiveText unset stream).2.bytes.length < stream.bytes.length := by
  obtain ⟨data, hNonempty, hData, -, hRest⟩ := receiveText_text hText
  have hTaken := (safeSockReceive_data hData).2
  have hPos : 0 < data.length := List.length_pos_iff.mpr hNonempty
  rw [hRest]
  omega

/-- The turns suffice: every connection ends. -/
theorem converse_ending (env : Environment σ) (around : Nat → Surroundings)
    (n i : Nat) (stream : Stream) (s : Session σ)
    (hTurns : stream.bytes.length < n) :
    (converse env around n i stream s).ending ≠ .running := by
  induction n generalizing i stream s with
  | zero => omega
  | succ n ih =>
      rw [converse]
      cases hText : (receiveText (around i).unset stream).1.text with
      | none => simp
      | some text =>
          have hShorter := length_rest_lt hText
          simp only
          cases (s.handle env (around i) text).1 with
          | leave => simp
          | raise source e => simp
          | goOn => exact ih _ _ _ (by omega)

/-- **What a connection takes in** are the texts on its stream, up to the one
that ends the conversation. -/
theorem texts_converse (env : Environment σ) (around : Nat → Surroundings)
    (n i : Nat) (stream : Stream) (s : Session σ) :
    (converse env around n i stream s).texts =
      (hear env around i (deliver around n i stream) s).1 := by
  induction n generalizing i stream s with
  | zero => rfl
  | succ n ih =>
      rw [converse, deliver]
      cases hText : (receiveText (around i).unset stream).1.text with
      | none => simp [Conversation.texts, hText, hear]
      | some text =>
          simp only [hear]
          cases (s.handle env (around i) text).1 with
          | leave => simp [Conversation.texts, hText]
          | raise source e => simp [Conversation.texts, hText]
          | goOn =>
              simp only [← ih, Conversation.texts, List.filterMap_cons, hText]

end GDPRuler.Controller
