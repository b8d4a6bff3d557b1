import Mathlib.Data.List.TakeWhile
import GDPRuler.Controller.Connection

/-!
# Request framing

A client sends messages and its connection ends somewhere.  What ought to be
parsed is what arrived: every message that is there as a whole, up to the one
that ends the conversation, and nothing else.

It is, if the messages are C strings that leave room for a terminator, and if
the connection does not end where the code would look for a size: it notices
the end of the stream only where a message ought to begin, not where its size
ought to.
-/

namespace GDPRuler.Controller

open GDPRuler.Verified

variable {σ : Type}

/-! ## What ought to be parsed -/

/-- Exactly these texts were parsed, every size that was used had come as a
whole, and nothing was written outside the buffer. -/
structure Framed (rounds : List Round) (heard : List Str) : Prop where
  texts : rounds.filterMap Round.text = heard
  sizes : ∀ round ∈ rounds, ∀ k, round.sizeBytes = some k → k = 4
  inside : ∀ round ∈ rounds, round.written ≤ maxMsgSize

/-- A message as C strings allow it, with room for the terminator. -/
def Terminated (message : Str) : Prop :=
  0 ∉ message ∧ message.length < maxMsgSize

theorem cString_eq_iff (message : Str) : cString message = message ↔
    0 ∉ message := by
  rw [cString, List.takeWhile_eq_self_iff]
  constructor
  · intro h hMem
    exact absurd (h 0 hMem) (by decide)
  · intro h b hb
    have hNonzero : b ≠ 0 := fun hZero => h (hZero ▸ hb)
    exact decide_eq_true hNonzero

/-! ## One message -/

/-- A message that was received as a whole. -/
def wholeRound (message : Str) : Round :=
  ⟨some 4, message.length + 1, some (cString message)⟩

theorem texts_wholeRound (message : Str) (rounds : List Round) :
    (wholeRound message :: rounds).filterMap Round.text =
      cString message :: rounds.filterMap Round.text := rfl

theorem framed_cons_iff (message : Str) (rounds : List Round)
    (heard : List Str) :
    Framed (wholeRound message :: rounds) (message :: heard) ↔
      Terminated message ∧ Framed rounds heard := by
  constructor
  · intro h
    obtain ⟨hText, hLater⟩ := List.cons.inj
      ((texts_wholeRound message rounds).symm.trans h.texts)
    have hInside := h.inside _ List.mem_cons_self
    refine ⟨⟨(cString_eq_iff message).mp hText, hInside⟩, hLater, ?_, ?_⟩
    · exact fun round hRound => h.sizes round (List.mem_cons_of_mem _ hRound)
    · exact fun round hRound => h.inside round (List.mem_cons_of_mem _ hRound)
  · rintro ⟨hMessage, h⟩
    refine ⟨?_, ?_, ?_⟩
    · rw [texts_wholeRound, h.texts, (cString_eq_iff message).mpr hMessage.1]
    · rw [List.forall_mem_cons]
      exact ⟨fun k hk => (Option.some.inj hk).symm, h.sizes⟩
    · rw [List.forall_mem_cons]
      exact ⟨hMessage.2, h.inside⟩

theorem framed_nil : Framed [] [] where
  texts := rfl
  sizes _ h := nomatch h
  inside _ h := nomatch h

/-! ## The end of the stream -/

/-- What is left of a frame at the end of the stream does no harm: the size
alone, or nothing before an error. -/
def EndsQuietly (left : Nat) (broken : Bool) : Prop :=
  left = 4 ∨ left = 0 ∧ broken = true

/-- A turn in which nothing was parsed. -/
def quietRound (sizeBytes : Option Nat) : Round := ⟨sizeBytes, 0, none⟩

theorem framed_quietRound {sizeBytes : Option Nat}
    (hSize : ∀ k, sizeBytes = some k → k = 4) :
    Framed [quietRound sizeBytes] [] where
  texts := rfl
  sizes := by
    rw [List.forall_mem_singleton]
    exact hSize
  inside := by
    rw [List.forall_mem_singleton]
    exact Nat.zero_le _

/-- The first turn is the one that receives. -/
theorem converse_rounds (env : Environment σ) (around : Nat → Surroundings)
    (n i : Nat) (stream : Stream) (s : Session σ) :
    ∃ later, (converse env around (n + 1) i stream s).rounds =
      (receiveText (around i).unset stream).1 :: later := by
  rw [converse]
  cases (receiveText (around i).unset stream).1.text with
  | none => exact ⟨[], rfl⟩
  | some text =>
      simp only
      cases (s.handle env (around i) text).1 with
      | leave => exact ⟨[], rfl⟩
      | raise source e => exact ⟨[], rfl⟩
      | goOn => exact ⟨_, rfl⟩

/-- A turn without a text is the last one. -/
theorem converse_of_text_eq_none {env : Environment σ}
    {around : Nat → Surroundings} {i : Nat} {stream : Stream}
    (hText : (receiveText (around i).unset stream).1.text = none)
    (n : Nat) (s : Session σ) :
    (converse env around (n + 1) i stream s).rounds =
      [(receiveText (around i).unset stream).1] := by
  rw [converse]
  simp only [hText]

/-- The size of a message and some of the message. -/
theorem take_frame {message : Str} {cut : Nat} (hSize : 4 ≤ cut) :
    (Framing.frame networkHeader message).take cut =
      networkHeader.write message.length ++ message.take (cut - 4) := by
  have hLength : (networkHeader.write message.length).length = 4 :=
    networkHeader.length_write _
  rw [Framing.frame, List.take_append, hLength,
    List.take_of_length_le (by rw [hLength]; exact hSize)]

/-- Some of a message is taken for all of it. -/
theorem receiveText_cut {message : Str} (hMax : message.length ≤ maxMsgSize)
    {cut : Nat} (hSize : 4 < cut)
    (hCut : cut < (Framing.frame networkHeader message).length)
    (unset : Str) (broken : Bool) :
    (receiveText unset
        ⟨(Framing.frame networkHeader message).take cut, broken⟩).1 =
      ⟨some 4, cut - 4 + 1, some (cString (message.take (cut - 4)))⟩ := by
  have hFrame : (Framing.frame networkHeader message).length =
      4 + message.length := Framing.length_frame _ _
  have hLength : (message.take (cut - 4)).length = cut - 4 := by
    rw [List.length_take]
    omega
  have hSome : message.take (cut - 4) ≠ [] := by
    intro hNil
    rw [hNil] at hLength
    exact absurd hLength (by simp only [List.length_nil]; omega)
  have hThere : ¬ (message.take (cut - 4) = [] ∧ broken = true) :=
    fun h => hSome h.1
  have hAll : (message.take (cut - 4)).take message.length =
      message.take (cut - 4) :=
    List.take_of_length_le (by omega)
  unfold receiveText
  rw [take_frame (Nat.le_of_lt hSize), safeSockReceive_header hMax,
    Stream.recvAll, if_neg hThere]
  simp only [hAll, if_neg hSome, hLength]

/-- Behind the size alone nothing is parsed. -/
theorem receiveText_size {size : Nat} (hMax : size ≤ maxMsgSize) (unset : Str)
    (broken : Bool) :
    (receiveText unset ⟨networkHeader.write size, broken⟩).1 =
      quietRound (some 4) := by
  have hHeader := safeSockReceive_header hMax unset [] broken
  rw [List.append_nil] at hHeader
  unfold receiveText
  rw [hHeader]
  cases broken <;> simp [Stream.recvAll, quietRound]

theorem receiveText_broken (unset : Str) :
    (receiveText unset ⟨[], true⟩).1 = quietRound none := rfl

/-- **The end of the stream**, inside a frame or between two. -/
theorem framed_cut_iff (env : Environment σ) (around : Nat → Surroundings)
    {message : Str} (hMax : message.length ≤ maxMsgSize) {cut : Nat}
    (hCut : cut < (Framing.frame networkHeader message).length)
    (broken : Bool) (n i : Nat) (s : Session σ) :
    Framed (converse env around (n + 1) i
        ⟨(Framing.frame networkHeader message).take cut, broken⟩ s).rounds [] ↔
      EndsQuietly cut broken := by
  have hLength :
      ((Framing.frame networkHeader message).take cut).length = cut := by
    rw [List.length_take]
    omega
  constructor
  · intro h
    obtain ⟨later, hRounds⟩ := converse_rounds env around n i
      ⟨(Framing.frame networkHeader message).take cut, broken⟩ s
    rw [hRounds] at h
    by_cases hEnd : (Framing.frame networkHeader message).take cut = [] ∧
        broken = true
    · refine Or.inr ⟨?_, hEnd.2⟩
      rw [← hLength, hEnd.1]
      rfl
    · have hSize := h.sizes _ List.mem_cons_self (min 4 cut) (by
        rw [sizeBytes_receiveText, sizeBytes_safeSockReceive, if_neg hEnd,
          hLength])
      by_cases hMore : 4 < cut
      · have hTexts := h.texts
        rw [receiveText_cut hMax hMore hCut] at hTexts
        cases hTexts
      · exact Or.inl (by omega)
  · rintro (hSize | ⟨hNone, hBroken⟩)
    · have hRound := receiveText_size hMax (around i).unset broken
      have hTake : (Framing.frame networkHeader message).take cut =
          networkHeader.write message.length := by
        rw [take_frame (Nat.le_of_eq hSize.symm), hSize]
        exact List.append_nil _
      rw [hTake, converse_of_text_eq_none (by rw [hRound]; rfl), hRound]
      exact framed_quietRound fun k hk => (Option.some.inj hk).symm
    · rw [hNone, hBroken, List.take_zero,
        converse_of_text_eq_none (by rw [receiveText_broken]; rfl),
        receiveText_broken]
      exact framed_quietRound fun k hk => nomatch hk

/-! ## The whole connection -/

theorem hear_cons (env : Environment σ) (around : Nat → Surroundings) (i : Nat)
    (message : Str) (messages : List Str) (s : Session σ) :
    ∃ later, (hear env around i (message :: messages) s).1 =
      message :: later := by
  rw [hear]
  cases (s.handle env (around i) message).1 with
  | goOn => exact ⟨_, rfl⟩
  | leave => exact ⟨[], rfl⟩
  | raise source e => exact ⟨[], rfl⟩

/-- A message that was received as a whole is parsed, and the conversation
goes on behind it. -/
theorem rounds_converse_frame (env : Environment σ) (around : Nat → Surroundings)
    {message : Str} (hNonempty : message ≠ [])
    (hMax : message.length ≤ maxMsgSize) (hMessage : 0 ∉ message) (rest : Str)
    (broken : Bool) (n i : Nat) (s : Session σ) :
    (converse env around (n + 1) i
        ⟨Framing.frame networkHeader message ++ rest, broken⟩ s).rounds =
      wholeRound message ::
        match (s.handle env (around i) message).1 with
        | .goOn => (converse env around n (i + 1) ⟨rest, broken⟩
            (s.handle env (around i) message).2).rounds
        | _ => [] := by
  rw [converse, receiveText_frame hNonempty hMax,
    (cString_eq_iff message).mpr hMessage]
  simp only [wholeRound, (cString_eq_iff message).mpr hMessage]
  cases (s.handle env (around i) message).1 <;> rfl

/-- A first message that is no C string is not parsed as it came, or its
terminator lies behind the buffer. -/
theorem not_framed_frame (env : Environment σ) (around : Nat → Surroundings)
    {message : Str} (hNonempty : message ≠ [])
    (hMax : message.length ≤ maxMsgSize) (hMessage : ¬ Terminated message)
    (rest : Str) (broken : Bool) (n i : Nat) (s : Session σ)
    (later : List Str) :
    ¬ Framed (converse env around (n + 1) i
        ⟨Framing.frame networkHeader message ++ rest, broken⟩ s).rounds
      (message :: later) := by
  intro h
  obtain ⟨rounds, hRounds⟩ := converse_rounds env around n i
    ⟨Framing.frame networkHeader message ++ rest, broken⟩ s
  rw [hRounds, receiveText_frame hNonempty hMax] at h
  exact hMessage ((framed_cons_iff message rounds later).mp h).1

/-- **One message**: if what is behind it is parsed as it ought to be under a
condition on the end, so is all of it. -/
theorem framed_frame_iff (env : Environment σ) (around : Nat → Surroundings)
    {message : Str} (hNonempty : message ≠ [])
    (hMax : message.length ≤ maxMsgSize) (rest : Str) (broken : Bool)
    (n i : Nat) (s : Session σ) (messages : List Str) (ending : Prop)
    (hRest : ∀ s',
      Framed (converse env around n (i + 1) ⟨rest, broken⟩ s').rounds
          (hear env around (i + 1) messages s').1 ↔
        (∀ m ∈ (hear env around (i + 1) messages s').1, Terminated m) ∧
          ((hear env around (i + 1) messages s').2 = true ∨ ending)) :
    Framed (converse env around (n + 1) i
        ⟨Framing.frame networkHeader message ++ rest, broken⟩ s).rounds
        (hear env around i (message :: messages) s).1 ↔
      (∀ m ∈ (hear env around i (message :: messages) s).1, Terminated m) ∧
        ((hear env around i (message :: messages) s).2 = true ∨ ending) := by
  by_cases hMessage : Terminated message
  · rw [rounds_converse_frame env around hNonempty hMax hMessage.1, hear]
    cases (s.handle env (around i) message).1 with
    | goOn =>
        simp only [framed_cons_iff, hRest, List.forall_mem_cons, hMessage,
          true_and]
    | leave =>
        simp only [framed_cons_iff, framed_nil, List.forall_mem_singleton,
          true_or, and_true]
    | raise source e =>
        simp only [framed_cons_iff, framed_nil, List.forall_mem_singleton,
          true_or, and_true]
  · obtain ⟨later, hHeard⟩ := hear_cons env around i message messages s
    rw [hHeard]
    refine iff_of_false (not_framed_frame env around hNonempty hMax
      hMessage _ broken n i s later) ?_
    rintro ⟨hAll, -⟩
    exact hMessage (hAll message List.mem_cons_self)

/-- **A connection that is cut**, by induction on what the client sends: the
cut falls into the first message, or behind it. -/
theorem framed_converse_iff (env : Environment σ)
    (around : Nat → Surroundings) {messages : List Str}
    (hMessages : ∀ message ∈ messages,
      message ≠ [] ∧ message.length ≤ maxMsgSize)
    (broken : Bool) (cut n i : Nat) (s : Session σ)
    (hTurns :
      ((Framing.frames networkHeader messages).take cut).length < n) :
    Framed (converse env around n i
        ⟨(Framing.frames networkHeader messages).take cut, broken⟩ s).rounds
        (hear env around i (Framing.received networkHeader messages cut) s).1 ↔
      (∀ message ∈ (hear env around i
          (Framing.received networkHeader messages cut) s).1,
        Terminated message) ∧
      ((hear env around i
          (Framing.received networkHeader messages cut) s).2 = true ∨
        EndsQuietly (Framing.remainder networkHeader messages cut) broken) := by
  obtain ⟨n, rfl⟩ := Nat.exists_eq_succ_of_ne_zero (Nat.ne_zero_of_lt hTurns)
  induction messages generalizing cut n i s with
  | nil =>
      have hMax : ([] : Str).length ≤ maxMsgSize := Nat.zero_le _
      have hCut : 0 < (Framing.frame networkHeader []).length := by decide
      have hEnd := framed_cut_iff env around hMax hCut broken n i s
      rw [List.take_zero] at hEnd
      simpa [Framing.frames, Framing.received, Framing.remainder, hear] using
        hEnd
  | cons message messages ih =>
      obtain ⟨hNonempty, hMax⟩ := hMessages message List.mem_cons_self
      have hLater : ∀ message ∈ messages,
          message ≠ [] ∧ message.length ≤ maxMsgSize :=
        fun m hm => hMessages m (List.mem_cons_of_mem _ hm)
      by_cases hCut : cut < (Framing.frame networkHeader message).length
      · rw [Framing.take_frames_cons_of_lt hCut, Framing.received, if_pos hCut,
          Framing.remainder, if_pos hCut]
        simpa [hear] using framed_cut_iff env around hMax hCut broken n i s
      · have hFrame : (Framing.frame networkHeader message).length =
            4 + message.length := Framing.length_frame _ _
        rw [Framing.take_frames_cons_of_le (Nat.le_of_not_lt hCut)] at hTurns ⊢
        rw [Framing.received, if_neg hCut, Framing.remainder, if_neg hCut]
        rw [List.length_append] at hTurns
        refine framed_frame_iff env around hNonempty hMax _ broken n i s _ _
          fun s' => ?_
        obtain ⟨n, rfl⟩ := Nat.exists_eq_succ_of_ne_zero (n := n) (by omega)
        exact ih hLater _ _ _ _ (by omega)

/-- **Request framing**, for every client and every point at which its stream
ends: the completed messages are what is parsed, no size is used that did not
come, and nothing is written outside the buffer, exactly if the messages are C
strings with room for the terminator, and one of them ends the conversation or
the stream ends quietly. -/
theorem framed_iff (env : Environment σ) (around : Nat → Surroundings)
    {messages : List Str} (hMessages : ∀ message ∈ messages,
      message ≠ [] ∧ message.length ≤ maxMsgSize)
    (cut : Nat) (broken : Bool) (w : World σ) :
    Framed (handleConnection env around
        ⟨(Framing.frames networkHeader messages).take cut, broken⟩ w).rounds
        (hear env around 0 (Framing.received networkHeader messages cut)
          ⟨none, w⟩).1 ↔
      (∀ message ∈ (hear env around 0
          (Framing.received networkHeader messages cut) ⟨none, w⟩).1,
        Terminated message) ∧
      ((hear env around 0
          (Framing.received networkHeader messages cut) ⟨none, w⟩).2 = true ∨
        EndsQuietly (Framing.remainder networkHeader messages cut) broken) :=
  framed_converse_iff env around hMessages broken cut _ 0 ⟨none, w⟩
    (Nat.lt_succ_self _)

/-- A client that closes behind the size of its request. -/
theorem framed_size_alone :
    Framed (handleConnection ⟨mapClient true none, ⟨lit "logs", none⟩⟩
        (fun _ => .calm)
        ⟨(Framing.frames networkHeader
          [alicePolicyText, lit "query(GET(\"k\"))"]).take
            ((clientStream [alicePolicyText]).bytes.length + 4), false⟩
        ⟨fun _ => none, []⟩).rounds
      [alicePolicyText] := by
  have hMessages : ∀ message ∈ [alicePolicyText, lit "query(GET(\"k\"))"],
      message ≠ [] ∧ message.length ≤ maxMsgSize := by decide +kernel
  have hReceived : Framing.received networkHeader
      [alicePolicyText, lit "query(GET(\"k\"))"]
      ((clientStream [alicePolicyText]).bytes.length + 4) =
        [alicePolicyText] := by decide +kernel
  have hRemainder : Framing.remainder networkHeader
      [alicePolicyText, lit "query(GET(\"k\"))"]
      ((clientStream [alicePolicyText]).bytes.length + 4) = 4 := by
    decide +kernel
  have hHeard : hear ⟨mapClient true none, ⟨lit "logs", none⟩⟩
      (fun _ => .calm) 0 [alicePolicyText] ⟨none, ⟨fun _ => none, []⟩⟩ =
        ([alicePolicyText], false) := by decide +kernel
  have hFramed := framed_iff ⟨mapClient true none, ⟨lit "logs", none⟩⟩
    (fun _ => .calm) hMessages
    ((clientStream [alicePolicyText]).bytes.length + 4) false
    ⟨fun _ => none, []⟩
  rw [hReceived, hRemainder, hHeard] at hFramed
  refine hFramed.mpr ⟨?_, .inr (.inl rfl)⟩
  rw [List.forall_mem_singleton]
  exact ⟨by decide +kernel, by decide +kernel⟩

/-- A connection that is closed in the middle of a request: its beginning is
parsed as the request.  One that is closed behind a request: a size is used of
which nothing came.  And the longest message: its terminator is put behind the
buffer. -/
theorem cut_request_parsed :
    let conversation := fun messages cut =>
      handleConnection ⟨mapClient true none, ⟨lit "logs", none⟩⟩
        (fun _ => .calm)
        ⟨(Framing.frames networkHeader messages).take cut, false⟩
        ⟨fun _ => none, []⟩
    let messages :=
      [alicePolicyText, lit "query(DELETE(\"k\"))&sessionKey(\"bob\")"]
    let cut := (clientStream
      [alicePolicyText, lit "query(DELETE(\"k\"))"]).bytes.length
    Framing.received networkHeader messages cut = [alicePolicyText] ∧
      (conversation messages cut).texts =
        [alicePolicyText, lit "query(DELETE(\"k\"))"] ∧
      ¬ Framed (conversation messages cut).rounds [alicePolicyText] ∧
      (conversation [alicePolicyText]
          (clientStream [alicePolicyText]).bytes.length).rounds.map
            Round.sizeBytes = [some 4, some 0] ∧
      (receiveText [] (clientStream
        [List.replicate maxMsgSize 97])).1.written = maxMsgSize + 1 := by
  intro conversation messages cut
  have hTexts : (conversation messages cut).texts =
      [alicePolicyText, lit "query(DELETE(\"k\"))"] := by decide +kernel
  refine ⟨by decide +kernel, hTexts, ?_, by decide +kernel, ?_⟩
  · intro h
    have hLengths := congrArg List.length (hTexts.symm.trans h.texts)
    cases hLengths
  · have hMax : (List.replicate maxMsgSize (97 : UInt8)).length ≤ maxMsgSize :=
      Nat.le_of_eq List.length_replicate
    have hSome : List.replicate maxMsgSize (97 : UInt8) ≠ [] := by
      rw [Ne, List.replicate_eq_nil_iff]
      decide
    have hReceived := receiveText_frame hSome hMax [] [] false
    rw [clientStream, Framing.frames, List.flatMap_singleton,
      ← List.append_nil (Framing.frame networkHeader _), hReceived,
      List.length_replicate]

end GDPRuler.Controller
