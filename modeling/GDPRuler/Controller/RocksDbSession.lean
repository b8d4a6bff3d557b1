import GDPRuler.Controller.RocksDbServer

/-!
# A session of the RocksDB server

`session::handle_read` reads a size, makes a buffer of that size, reads as many
bytes, executes the query in them and writes the response, until its peer closes
the connection.  It catches the exceptions of the sockets; any other leaves the
thread of the session and ends the server.

The peer may send any bytes and close at any point, the other sessions may change
the database between two queries, and buffers may fail to be had
(`DbSurroundings`).  Of all operations only the making of the buffer can stop the
server: a negative size becomes one that no vector has.

## Main results

* `QueryMessage.deserialize_ok` — taking a query apart never throws;
* `DbSession.handleRead_ended_iff` — when a session ends by itself;
* `DbSession.agrees_link` — the session as one side of a connection;
* `DbSession.contained_iff` — when the bytes of a peer concern its session only.
-/

namespace GDPRuler.Controller

open GDPRuler.Verified

/-- **No line makes `deserialize` throw**: every `substr` starts inside it. -/
theorem QueryMessage.deserialize_ok (rawQuery : Str) :
    ∃ query, deserialize rawQuery = .ok query := by
  have hSubstr : ∀ pos n, pos ≤ rawQuery.length →
      substr rawQuery pos n = .ok ((rawQuery.drop pos).take n) := by
    intro pos n hPos
    exact if_neg (Nat.not_lt.mpr hPos)
  unfold deserialize
  dsimp only
  split
  · exact ⟨_, rfl⟩
  rw [hSubstr 0 _ (Nat.zero_le _)]
  simp only [bind, Except.bind, pure, Except.pure]
  split
  · exact ⟨_, rfl⟩
  split
  · exact ⟨_, rfl⟩
  · rename_i hKey
    rw [hSubstr _ _ (by omega)]
    simp only
    split
    · split
      · exact ⟨_, rfl⟩
      · rename_i hValue
        rw [hSubstr _ _ (by omega)]
        exact ⟨_, rfl⟩
    · exact ⟨_, rfl⟩

/-! ## Buffers -/

/-- `static_cast<size_t>` of an `int`. -/
def sizeOfInt (n : Int) : Nat := (n % 2 ^ 64).toNat

/-- `max_size()` of a vector of bytes. -/
def maxSize : Nat := 2 ^ 63 - 1

theorem sizeOfInt_of_nonneg {n : Int} (hLow : 0 ≤ n) (hHigh : n < 2 ^ 31) :
    sizeOfInt n = n.toNat := by
  unfold sizeOfInt
  rw [Int.emod_eq_of_lt hLow (by omega)]

/-- A negative `int` is larger than any vector. -/
theorem maxSize_lt_sizeOfInt {n : Int} (hLow : -2 ^ 31 ≤ n) (hHigh : n < 0) :
    maxSize < sizeOfInt n := by
  unfold sizeOfInt maxSize
  omega

/-! ## Sessions -/

/-- What an iteration of the loop can throw. -/
inductive Thrown
  | systemError
  | lengthError
  | badAlloc
  | parsing (e : Exn)
  deriving DecidableEq

/-- What a session depends on apart from the bytes it is sent. -/
structure DbSurroundings where
  /-- A buffer of so many bytes can be had. -/
  allocates : Nat → Bool
  allocates_zero : allocates 0 = true
  /-- The number of responses the peer takes before it closes. -/
  takes : Nat
  /-- What other sessions do before the query of that number. -/
  between : Nat → Store → Store

/-- A session with the bytes its peer sends before it closes, and the responses
written so far, with their sizes. -/
structure DbSession where
  db : Store
  incoming : Str
  responses : List Str := []

/-- How far the loop has come. -/
inductive SessionEnding
  | running
  | ended
  | escaped (e : Thrown)
  deriving DecidableEq

/-- `std::vector<char> message_buffer(size)` -/
def DbSurroundings.vector (env : DbSurroundings) (size : Nat) : Except Thrown Nat :=
  if maxSize < size then .error .lengthError
  else if env.allocates size then .ok size
  else .error .badAlloc

/-- The size in front of a text, once four bytes of it are there. -/
def sizeField (s : Str) : Int := intOfSize (memoryValue (s.take 4))

namespace DbSession

section Loop

variable (env : DbSurroundings)

/-- An iteration from where the message is read, with a buffer for it. -/
def exchange (s : DbSession) (size : Nat) : Except Thrown Unit × DbSession :=
  if s.incoming.length < size then
    (.error .systemError, { s with incoming := [] })
  else
    match QueryMessage.deserialize (s.incoming.take size) with
    | .error e =>
        (.error (.parsing e), { s with incoming := s.incoming.drop size })
    | .ok query =>
        let answer := rocksdbProxy query (env.between s.responses.length s.db)
        if s.responses.length < env.takes then
          (.ok (), { db := answer.2, incoming := s.incoming.drop size
                     responses := s.responses ++
                       [Framing.frame intHeader answer.1.serialize] })
        else
          (.error .systemError,
            { s with db := answer.2, incoming := s.incoming.drop size })

/-- One iteration of the loop, in its `try` block. -/
def round (s : DbSession) : Except Thrown Unit × DbSession :=
  if s.incoming.length < 4 then
    (.error .systemError, { s with incoming := [] })
  else
    match env.vector (sizeOfInt (sizeField s.incoming)) with
    | .error e => (.error e, { s with incoming := s.incoming.drop 4 })
    | .ok size => exchange env { s with incoming := s.incoming.drop 4 } size

/-- `session::handle_read`, for at most `n` iterations. -/
def handleRead : Nat → DbSession → SessionEnding × DbSession
  | 0, s => (.running, s)
  | n + 1, s =>
      match s.round env with
      | (.ok _, s') => handleRead n s'
      | (.error .systemError, s') => (.ended, s')
      | (.error e, s') => (.escaped e, s')

end Loop

/-! ## What the peer sends -/

/-- The complete messages, up to a size that is none. -/
def messages : Nat → Str → List Str
  | 0, _ => []
  | n + 1, s =>
      match arrival s with
      | .message text rest => text :: messages n rest
      | _ => []

/-- The sizes in front of them, and that in front of what is not complete. -/
def sizeFields : Nat → Str → List Int
  | 0, _ => []
  | n + 1, s =>
      if s.length < 4 then []
      else sizeField s ::
        match arrival s with
        | .message _ rest => sizeFields n rest
        | _ => []

/-- A buffer for the size can be made. -/
def Fits (env : DbSurroundings) (size : Int) : Prop :=
  0 ≤ size ∧ env.allocates size.toNat = true

/-- The response is one to the message, behind its size. -/
def Answers (text response : Str) : Prop :=
  ∃ query db, QueryMessage.deserialize text = .ok query ∧
    response = Framing.frame intHeader (rocksdbProxy query db).1.serialize

section Rounds

variable {env : DbSurroundings} {s : DbSession} {text rest : Str}

theorem arrival_of_short (h : s.incoming.length < 4) :
    arrival s.incoming = .waiting := if_pos h

theorem arrival_of_negative (h : ¬ s.incoming.length < 4)
    (hNegative : sizeField s.incoming < 0) :
    arrival s.incoming = .refused := by
  rw [arrival, if_neg h]
  exact if_pos hNegative

/-- With a size, a message is what follows it, if there is as much. -/
theorem arrival_of_nonneg (h : ¬ s.incoming.length < 4)
    (hSize : 0 ≤ sizeField s.incoming) :
    arrival s.incoming =
      if (s.incoming.drop 4).length < (sizeField s.incoming).toNat then .waiting
      else .message
        ((s.incoming.drop 4).take (sizeField s.incoming).toNat)
        ((s.incoming.drop 4).drop (sizeField s.incoming).toNat) := by
  have hRead : intHeader.read (s.incoming.take intHeader.width) =
      (sizeField s.incoming).toNat := rfl
  rw [arrival, if_neg h]
  rw [show intOfSize (memoryValue (s.incoming.take 4)) =
    sizeField s.incoming from rfl, if_neg (Int.not_lt.mpr hSize),
    Framing.split, hRead, intHeader_width, List.length_drop, List.drop_drop]
  by_cases hLess : s.incoming.length < 4 + (sizeField s.incoming).toNat
  · rw [if_pos hLess, if_pos (by omega)]
  · rw [if_neg hLess, if_neg (by omega)]

theorem vector_of_negative (env : DbSurroundings) {s : Str}
    (hNegative : sizeField s < 0) :
    env.vector (sizeOfInt (sizeField s)) = .error .lengthError :=
  if_pos (maxSize_lt_sizeOfInt (le_intOfSize _) hNegative)

theorem vector_of_nonneg (env : DbSurroundings) {s : Str}
    (hSize : 0 ≤ sizeField s) :
    env.vector (sizeOfInt (sizeField s)) =
      if env.allocates (sizeField s).toNat then .ok (sizeField s).toNat
      else .error .badAlloc := by
  have hHigh : sizeField s < 2 ^ 31 := intOfSize_lt _
  have hVector : ¬ maxSize < (sizeField s).toNat := by
    rw [maxSize]
    omega
  rw [sizeOfInt_of_nonneg hSize hHigh, DbSurroundings.vector, if_neg hVector]

/-- A round without four bytes. -/
theorem round_short (h : s.incoming.length < 4) :
    (s.round env).1 = .error .systemError := by
  rw [round, if_pos h]

/-- A round with a size that no buffer has. -/
theorem round_of_not_fits (h : ¬ s.incoming.length < 4)
    (hFits : ¬ Fits env (sizeField s.incoming)) :
    ∃ e, e ≠ .systemError ∧ (s.round env).1 = .error e := by
  rw [round, if_neg h]
  by_cases hSize : 0 ≤ sizeField s.incoming
  · have hNone : ¬ env.allocates (sizeField s.incoming).toNat = true :=
      fun hSome => hFits ⟨hSize, hSome⟩
    rw [vector_of_nonneg env hSize, if_neg hNone]
    exact ⟨.badAlloc, by decide, rfl⟩
  · rw [vector_of_negative env (Int.not_le.mp hSize)]
    exact ⟨.lengthError, by decide, rfl⟩

/-- A round with a buffer. -/
theorem round_of_fits (h : ¬ s.incoming.length < 4)
    (hFits : Fits env (sizeField s.incoming)) :
    s.round env = exchange env { s with incoming := s.incoming.drop 4 }
      (sizeField s.incoming).toNat := by
  rw [round, if_neg h, vector_of_nonneg env hFits.1, if_pos hFits.2]

theorem exchange_short {size : Nat} (h : s.incoming.length < size) :
    s.exchange env size = (.error .systemError, { s with incoming := [] }) :=
  if_pos h

/-- The session after it has answered a query. -/
def answering (env : DbSurroundings) (s : DbSession) (query : QueryMessage)
    (rest : Str) : DbSession :=
  let answer := rocksdbProxy query (env.between s.responses.length s.db)
  { db := answer.2, incoming := rest
    responses := s.responses ++
      [Framing.frame intHeader answer.1.serialize] }

/-- A message is answered, or the peer has closed. -/
theorem exchange_message {size : Nat} (h : ¬ s.incoming.length < size) :
    ∃ query, QueryMessage.deserialize (s.incoming.take size) = .ok query ∧
      (s.responses.length < env.takes → s.exchange env size =
        (.ok (), s.answering env query (s.incoming.drop size))) ∧
      (env.takes ≤ s.responses.length →
        (s.exchange env size).1 = .error .systemError) := by
  rcases QueryMessage.deserialize_ok (s.incoming.take size) with ⟨query, hQuery⟩
  refine ⟨query, hQuery, ?_⟩
  rw [exchange, if_neg h, hQuery]
  constructor
  · intro hTakes
    simp only [if_pos hTakes]
    rfl
  · intro hTakes
    simp only [if_neg (Nat.not_lt.mpr hTakes)]

/-- A round without a whole message. -/
theorem round_waiting (h : ¬ s.incoming.length < 4)
    (hFits : Fits env (sizeField s.incoming))
    (hArrive : ∀ text rest, arrival s.incoming ≠ .message text rest) :
    (s.round env).1 = .error .systemError := by
  rw [arrival_of_nonneg h hFits.1] at hArrive
  by_cases hLess : (s.incoming.drop 4).length < (sizeField s.incoming).toNat
  · rw [round_of_fits h hFits, exchange_short hLess]
  · rw [if_neg hLess] at hArrive
    exact absurd rfl (hArrive _ _)

/-- A round with a message. -/
theorem round_message (h : ¬ s.incoming.length < 4)
    (hFits : Fits env (sizeField s.incoming))
    (hArrive : arrival s.incoming = .message text rest) :
    ∃ query, QueryMessage.deserialize text = .ok query ∧
      (s.responses.length < env.takes →
        s.round env = (.ok (), s.answering env query rest)) ∧
      (env.takes ≤ s.responses.length →
        (s.round env).1 = .error .systemError) := by
  rw [arrival_of_nonneg h hFits.1] at hArrive
  rw [round_of_fits h hFits]
  by_cases hLess : (s.incoming.drop 4).length < (sizeField s.incoming).toNat
  · rw [if_pos hLess] at hArrive
    cases hArrive
  · rw [if_neg hLess] at hArrive
    cases hArrive
    exact exchange_message (s := { s with incoming := s.incoming.drop 4 }) hLess

end Rounds

/-! ## Whole sessions -/

section Runs

variable (env : DbSurroundings)

theorem handleRead_ok {n : Nat} {s s' : DbSession}
    (h : s.round env = (.ok (), s')) :
    handleRead env (n + 1) s = handleRead env n s' := by
  rw [handleRead, h]

theorem handleRead_error {n : Nat} {s : DbSession} {e : Thrown}
    (h : (s.round env).1 = .error e) :
    handleRead env (n + 1) s =
      (if e = .systemError then .ended else .escaped e, (s.round env).2) := by
  have hRound : s.round env = (.error e, (s.round env).2) :=
    Prod.ext h rfl
  rw [handleRead, hRound]
  cases e <;> rfl

theorem sizeFields_succ {n : Nat} {s : Str} (h : ¬ s.length < 4) :
    sizeFields (n + 1) s = sizeField s ::
      match arrival s with
      | .message _ rest => sizeFields n rest
      | _ => [] := if_neg h

/-- A message takes four bytes at least. -/
theorem length_of_arrival {s text rest : Str} (h : ¬ s.length < 4)
    (hSize : 0 ≤ sizeField s) (hArrive : arrival s = .message text rest) :
    rest.length < s.length := by
  rw [arrival_of_nonneg (s := ⟨fun _ => none, s, []⟩) h hSize] at hArrive
  split at hArrive
  · cases hArrive
  · cases hArrive
    simp only [List.length_drop]
    omega

/-- **How a session ends.** With rounds enough, by itself exactly if a buffer can
be made for every size that it comes to read. -/
theorem handleRead_ended_iff {n : Nat} {s : DbSession}
    (hRounds : s.incoming.length < n)
    (hTakes : s.responses.length ≤ env.takes) :
    (handleRead env n s).1 = .ended ↔
      ∀ size ∈ (sizeFields n s.incoming).take
        (env.takes - s.responses.length + 1), Fits env size := by
  induction n generalizing s with
  | zero => omega
  | succ n ih =>
      by_cases hShort : s.incoming.length < 4
      · rw [handleRead_error env (round_short hShort), sizeFields, if_pos hShort]
        simp
      rw [sizeFields_succ hShort, List.take_succ_cons, List.forall_mem_cons]
      by_cases hFits : Fits env (sizeField s.incoming)
      · cases hArrive : arrival s.incoming with
        | message text rest =>
            obtain ⟨query, _, hTaken, hClosed⟩ :=
              round_message hShort hFits hArrive
            by_cases hMore : s.responses.length < env.takes
            · have hLess := length_of_arrival hShort hFits.1 hArrive
              rw [handleRead_ok env (hTaken hMore),
                ih (by simp only [answering]; omega)
                  (by simpa [answering] using Nat.succ_le_of_lt hMore)]
              simp only [hFits, true_and, answering, List.length_append,
                List.length_singleton]
              rw [show env.takes - s.responses.length =
                env.takes - (s.responses.length + 1) + 1 by omega]
            · have hNone : env.takes - s.responses.length = 0 := by omega
              rw [handleRead_error env (hClosed (Nat.not_lt.mp hMore)), hNone]
              simp [hFits]
        | waiting =>
            rw [handleRead_error env (round_waiting hShort hFits
              (by simp [hArrive]))]
            simp [hFits]
        | refused =>
            rw [handleRead_error env (round_waiting hShort hFits
              (by simp [hArrive]))]
            simp [hFits]
      · obtain ⟨e, hNe, hRound⟩ := round_of_not_fits hShort hFits
        rw [handleRead_error env hRound, if_neg hNe]
        simp [hFits]

theorem messages_succ_of_message {n : Nat} {s text rest : Str}
    (hArrive : arrival s = .message text rest) :
    messages (n + 1) s = text :: messages n rest := by
  rw [messages, hArrive]

theorem messages_of_not_message {n : Nat} {s : Str}
    (hArrive : ∀ text rest, arrival s ≠ .message text rest) :
    messages n s = [] := by
  cases n with
  | zero => rfl
  | succ n =>
      rw [messages]
      split
      · rename_i text rest h
        exact absurd h (hArrive text rest)
      · rfl

/-- A round that ends the loop writes nothing. -/
theorem responses_of_error {s : DbSession} {e : Thrown}
    (h : (s.round env).1 = .error e) :
    (s.round env).2.responses = s.responses := by
  unfold round at h ⊢
  split
  · rfl
  rename_i hShort
  rw [if_neg hShort] at h
  cases hVector : env.vector (sizeOfInt (sizeField s.incoming)) with
  | error _ => rfl
  | ok size =>
      simp only [hVector, exchange] at h ⊢
      split
      · rfl
      rename_i hThere
      rw [if_neg hThere] at h
      cases hQuery : QueryMessage.deserialize
          ((s.incoming.drop 4).take size) with
      | error _ => rfl
      | ok query =>
          simp only [hQuery] at h ⊢
          split
          · rename_i hTakes
            rw [if_pos hTakes] at h
            cases h
          · rfl

/-- From here on, the session answers every complete message, or as many as the
peer still takes. -/
def AnswersRest (n : Nat) (s : DbSession) : Prop :=
  ∃ responses,
    (handleRead env n s).2.responses = s.responses ++ responses ∧
    List.Forall₂ Answers
      ((messages n s.incoming).take (env.takes - s.responses.length)) responses

variable {env}

theorem AnswersRest.of_error {n : Nat} {s : DbSession} {e : Thrown}
    (hRound : (s.round env).1 = .error e)
    (hNone : (messages (n + 1) s.incoming).take
      (env.takes - s.responses.length) = []) :
    AnswersRest env (n + 1) s := by
  rw [AnswersRest, handleRead_error env hRound, responses_of_error env hRound,
    hNone]
  exact ⟨[], (List.append_nil _).symm, .nil⟩

theorem AnswersRest.of_answer {n : Nat} {s : DbSession} {text rest : Str}
    {query : QueryMessage} (hArrive : arrival s.incoming = .message text rest)
    (hQuery : QueryMessage.deserialize text = .ok query)
    (hMore : s.responses.length < env.takes)
    (hRound : s.round env = (.ok (), s.answering env query rest))
    (h : AnswersRest env n (s.answering env query rest)) :
    AnswersRest env (n + 1) s := by
  rcases h with ⟨responses, hResponses, hAll⟩
  have hCount : (s.answering env query rest).responses.length =
      s.responses.length + 1 := by
    simp [answering]
  rw [hCount] at hAll
  rw [AnswersRest, handleRead_ok env hRound, hResponses,
    messages_succ_of_message hArrive,
    show env.takes - s.responses.length =
      env.takes - (s.responses.length + 1) + 1 by omega, List.take_succ_cons]
  exact ⟨_ :: responses, List.append_assoc _ _ _,
    .cons ⟨query, _, hQuery, rfl⟩ hAll⟩

/-- **A session that ends by itself has answered** every complete message, or as
many as the peer has taken. -/
theorem handleRead_answered {n : Nat} {s : DbSession}
    (hEnded : (handleRead env n s).1 = .ended) : AnswersRest env n s := by
  induction n generalizing s with
  | zero => cases hEnded
  | succ n ih =>
      by_cases hShort : s.incoming.length < 4
      · apply AnswersRest.of_error (round_short hShort)
        rw [messages_of_not_message (by simp [arrival_of_short hShort]),
          List.take_nil]
      by_cases hFits : Fits env (sizeField s.incoming)
      · by_cases hArrive : ∃ text rest, arrival s.incoming = .message text rest
        · rcases hArrive with ⟨text, rest, hArrive⟩
          obtain ⟨query, hQuery, hTaken, hClosed⟩ :=
            round_message hShort hFits hArrive
          by_cases hMore : s.responses.length < env.takes
          · rw [handleRead_ok env (hTaken hMore)] at hEnded
            exact .of_answer hArrive hQuery hMore (hTaken hMore) (ih hEnded)
          · apply AnswersRest.of_error (hClosed (Nat.not_lt.mp hMore))
            rw [Nat.sub_eq_zero_of_le (Nat.not_lt.mp hMore), List.take_zero]
        · have hNot : ∀ text rest, arrival s.incoming ≠ .message text rest :=
            fun text rest h => hArrive ⟨text, rest, h⟩
          apply AnswersRest.of_error (round_waiting hShort hFits hNot)
          rw [messages_of_not_message hNot, List.take_nil]
      · obtain ⟨e, hNe, hRound⟩ := round_of_not_fits hShort hFits
        rw [handleRead_error env hRound, if_neg hNe] at hEnded
        cases hEnded

/-! ## The session on a connection -/

/-- The session and the server's side of a connection write the same, and the
connection is served until an exception escapes. -/
structure Agrees (env : DbSurroundings) (n : Nat) (s : DbSession) (link : Link) :
    Prop where
  serving : (link.handleRead n).serving = true ↔
    ∀ e, (handleRead env n s).1 ≠ .escaped e
  responses : ∃ responses,
    (handleRead env n s).2.responses = s.responses ++ responses ∧
    (link.handleRead n).response = link.response ++ responses.flatten

theorem Agrees.of_waiting {n : Nat} {s : DbSession} {link : Link}
    (hServing : link.serving = true) (hArrive : arrival link.request = .waiting)
    (hRound : (s.round env).1 = .error .systemError) :
    Agrees env (n + 1) s link := by
  have hLink : link.handleRead (n + 1) = link := Link.handleRead_waiting hArrive
  constructor
  · rw [hLink, handleRead_error env hRound]
    simp [hServing]
  · rw [hLink, handleRead_error env hRound, responses_of_error env hRound]
    exact ⟨[], (List.append_nil _).symm, (List.append_nil _).symm⟩

theorem Agrees.of_refused {n : Nat} {s : DbSession} {link : Link} {e : Thrown}
    (hServing : link.serving = true) (hArrive : arrival link.request = .refused)
    (hRound : (s.round env).1 = .error e) (hNe : e ≠ .systemError) :
    Agrees env (n + 1) s link := by
  have hLink := Link.handleRead_refused (n := n) hServing hArrive
  constructor
  · rw [hLink, handleRead_error env hRound, if_neg hNe]
    simp
  · rw [hLink, handleRead_error env hRound, responses_of_error env hRound]
    exact ⟨[], (List.append_nil _).symm, (List.append_nil _).symm⟩

theorem Agrees.of_message {n : Nat} {s s' : DbSession} {link link' : Link}
    {response : Str} (hRound : s.round env = (.ok (), s'))
    (hLink : link.handleRead (n + 1) = link'.handleRead n)
    (hWritten : s'.responses = s.responses ++ [response])
    (hSent : link'.response = link.response ++ response)
    (h : Agrees env n s' link') : Agrees env (n + 1) s link := by
  rcases h with ⟨hServing, responses, hResponses, hResponse⟩
  constructor
  · rw [hLink, handleRead_ok env hRound]
    exact hServing
  · rw [hLink, handleRead_ok env hRound, hResponses, hResponse, hWritten, hSent]
    exact ⟨response :: responses, by simp, by simp⟩

/-- **With memory enough and nobody else at the database**, a session is the
server's side of a connection, as long as the peer takes the responses. -/
theorem agrees_link (hAllocates : ∀ size, env.allocates size = true)
    (hAlone : ∀ k db, env.between k db = db) {n : Nat} {s : DbSession}
    {link : Link} (hServing : link.serving = true) (hRequest : link.request = s.incoming)
    (hDb : link.db = s.db) (hTakes : s.responses.length + n ≤ env.takes) :
    Agrees env n s link := by
  induction n generalizing s link with
  | zero =>
      constructor
      · simp [handleRead, Link.handleRead, hServing]
      · exact ⟨[], (List.append_nil _).symm, (List.append_nil _).symm⟩
  | succ n ih =>
      by_cases hShort : s.incoming.length < 4
      · exact .of_waiting hServing (hRequest ▸ arrival_of_short hShort)
          (round_short hShort)
      by_cases hSize : 0 ≤ sizeField s.incoming
      · have hFits : Fits env (sizeField s.incoming) := ⟨hSize, hAllocates _⟩
        cases hArrive : arrival s.incoming with
        | waiting =>
            exact .of_waiting hServing (hRequest ▸ hArrive)
              (round_waiting hShort hFits (by simp [hArrive]))
        | refused =>
            rw [arrival_of_nonneg hShort hSize] at hArrive
            split at hArrive <;> cases hArrive
        | message text rest =>
            obtain ⟨query, hQuery, hTaken, _⟩ :=
              round_message hShort hFits hArrive
            have hMore : s.responses.length < env.takes := by omega
            have hLink := Link.handleRead_message (n := n) hServing
              (hRequest ▸ hArrive) hQuery
            refine .of_message (hTaken hMore) hLink rfl ?_ (ih hServing rfl ?_ ?_)
            · simp only [hAlone, hDb]
            · simp only [answering, hAlone, hDb]
            · simp only [answering, List.length_append, List.length_singleton]
              omega
      · have hNegative := Int.not_le.mp hSize
        obtain ⟨e, hNe, hRound⟩ := @round_of_not_fits env _ hShort
          fun hFits => hSize hFits.1
        have hArrival := arrival_of_negative hShort hNegative
        exact .of_refused hServing (hRequest ▸ hArrival) hRound hNe

/-! ## What stops the server -/

variable (env)

/-- A session on a fresh connection, over everything its peer sends. -/
def whole (db : Store) (incoming : Str) : SessionEnding × DbSession :=
  handleRead env (incoming.length + 1) { db := db, incoming := incoming }

/-- The session ends by itself, with one response, behind its size, to each of the
complete messages, or to those whose response the peer takes. -/
structure Contained (db : Store) (incoming : Str) : Prop where
  ended : (whole env db incoming).1 = .ended
  answered : List.Forall₂ Answers
    ((messages (incoming.length + 1) incoming).take env.takes)
    (whole env db incoming).2.responses

end Runs

/-- A machine with memory enough, and no other session. -/
def calm : DbSurroundings :=
  { allocates := fun _ => true, allocates_zero := rfl, takes := 100
    between := fun _ db => db }

end DbSession

end GDPRuler.Controller
