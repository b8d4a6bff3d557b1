import GDPRuler.Verified.Budget
import GDPRuler.Verified.Events
import GDPRuler.Verified.Framing

/-!
# Requests over byte streams

A client and a server thread share a connection: a stream of symbols in each
direction.  The client sends one framed message at a time and reads until it
has a whole framed reply, in whatever pieces the symbols arrive; when it has
nothing more to ask it sends a farewell and closes.  The thread waits for a
whole message, reacts to it, and may serve a request, whose program works on
state that all threads share.

Nothing is said of the speed of anything: any client, any thread and the arrival
of any piece of a reply may come next.  That a thread has gone is not told to a
client, which waits.

`Related` is the simulation that connects such a network with the interleaved
requests of `GDPRuler.Verified.Interleave`: every run of the network is matched
by a run of the requests alone, in which the replies a client has received are
the outcomes of its own requests, in order.  So what is proved about
interleaved requests holds of what clients see on their connections.

## Main results

* `Related.step` — every step of the network is at most one of the requests;
* `exists_related` — every run of the network is a run of the requests;
* `Stage.enabled` — a connection never waits on both sides;
* `length_le_of_run` — every run ends.
-/

namespace GDPRuler.Verified.Transport

open GDPRuler.Verified.Interleave GDPRuler.Verified.Transition
open GDPRuler.Verified.Framing

/-! ## The two sides -/

/-- What a thread does with a message: serve a request, answer it by itself and
go on or raise, leave, or raise at once. -/
inductive Reaction (Req β Sess : Type)
  | serve (req : Req) (next : Sess)
  | greet (reply : List β) (next : Option Sess)
  | leave
  | raise

/-- A server: how messages are framed and how long they may be, what the threads
do with them, and the requests they serve. -/
structure Service (Req Op : Type) (Res : Op → Type) (ε β Sess σ : Type) where
  header : Header β
  width_pos : 0 < header.width
  maxSize : Nat
  maxSize_lt : maxSize < header.bound
  react : Sess → List β → Reaction Req β Sess
  system : System Req Op Res ε (List β) σ

/-- What a client sends: a greeting with the reply it must have, or a query. -/
inductive Message (β : Type)
  | hello (text wanted : List β)
  | query (text : List β)
  deriving DecidableEq

def Message.text {β : Type} : Message β → List β
  | hello text _ => text
  | query text => text

/-- What a client is doing; of a reply it has `got` some symbols. -/
inductive Phase (β : Type)
  | ready
  | awaiting (asked : Message β) (got : List β)
  | closed
  deriving DecidableEq

/-- A client: what it has still to send, its last message, and the replies to
its queries so far. -/
structure Sender (β : Type) where
  outbox : List (Message β)
  farewell : List β
  phase : Phase β
  replies : List (List β)

inductive Thread (Req Op : Type) (Res : Op → Type) (ε β Sess : Type)
  | receiving (sess : Sess)
  /-- The size of the next message has been read. -/
  | sized (sess : Sess) (size : Nat)
  | running (req : Req) (prog : Prog Op Res ε (List β)) (next : Sess)
  | gone

structure Link (Req Op : Type) (Res : Op → Type) (ε β Sess : Type) where
  sender : Sender β
  toThread : List β
  toSender : List β
  thread : Thread Req Op Res ε β Sess

structure Net (Req Op : Type) (Res : Op → Type) (ε β Sess σ : Type) where
  shared : σ
  links : Nat → Link Req Op Res ε β Sess
  /-- An exception ended the server. -/
  crashed : Bool

variable {Req Op : Type} {Res : Op → Type} {ε β Sess σ : Type}

/-! ## Steps -/

/-- How many symbols of a reply a client waits for: those of its size, and then
those of the message. -/
def missing (h : Header β) (got : List β) : Nat :=
  if got.length < h.width then h.width - got.length
  else h.width + h.read (got.take h.width) - got.length

/-- A client with a whole reply goes on, unless it is the wrong one to a
greeting. -/
def Sender.conclude [DecidableEq β] (c : Sender β) (reply : List β) :
    Message β → Sender β
  | .query _ => { c with phase := .ready, replies := c.replies ++ [reply] }
  | .hello _ wanted =>
      { c with phase := if reply = wanted then .ready else .closed }

/-- The next message, or the farewell, is sent as a whole. -/
def Link.send (h : Header β) (ℓ : Link Req Op Res ε β Sess) :
    Option (Link Req Op Res ε β Sess) :=
  match ℓ.sender.phase, ℓ.sender.outbox with
  | .ready, [] => some
      { ℓ with
        sender := { ℓ.sender with phase := .closed }
        toThread := ℓ.toThread ++ frame h ℓ.sender.farewell }
  | .ready, m :: outbox => some
      { ℓ with
        sender := { ℓ.sender with outbox := outbox, phase := .awaiting m [] }
        toThread := ℓ.toThread ++ frame h m.text }
  | _, _ => none

/-- A client receives at most `k + 1` of the symbols it waits for. -/
def Link.recv [DecidableEq β] (h : Header β) (k : Nat)
    (ℓ : Link Req Op Res ε β Sess) : Option (Link Req Op Res ε β Sess) :=
  match ℓ.sender.phase with
  | .awaiting asked got =>
      if missing h got = 0 then
        some { ℓ with sender := ℓ.sender.conclude (got.drop h.width) asked }
      else if ℓ.toSender = [] then none
      else
        let n := min (k + 1) (missing h got)
        some
          { ℓ with
            sender := { ℓ.sender with
              phase := .awaiting asked (got ++ ℓ.toSender.take n) }
            toSender := ℓ.toSender.drop n }
  | _ => none

/-- A step of a thread: the state it leaves, its connection, and whether it
raised an exception. -/
def Service.work (S : Service Req Op Res ε β Sess σ) (s : σ)
    (ℓ : Link Req Op Res ε β Sess) :
    Option (σ × Link Req Op Res ε β Sess × Bool) :=
  match ℓ.thread with
  | .receiving sess =>
      if ℓ.toThread.length < S.header.width then none
      else
        let size := S.header.read (ℓ.toThread.take S.header.width)
        if S.maxSize < size then some (s, { ℓ with thread := .gone }, false)
        else
          some (s, { ℓ with
            toThread := ℓ.toThread.drop S.header.width
            thread := .sized sess size }, false)
  | .sized sess size =>
      if ℓ.toThread.length < size then none
      else if size = 0 then some (s, { ℓ with thread := .gone }, false)
      else
        let rest := ℓ.toThread.drop size
        match S.react sess (ℓ.toThread.take size) with
        | .serve req next =>
            some (s, { ℓ with
              toThread := rest
              thread := .running req (S.system.body req) next }, false)
        | .greet reply next =>
            some (s, { ℓ with
              toThread := rest
              toSender := ℓ.toSender ++ frame S.header reply
              thread := (next.map .receiving).getD .gone }, next.isNone)
        | .leave =>
            some (s, { ℓ with toThread := rest, thread := .gone }, false)
        | .raise =>
            some (s, { ℓ with toThread := rest, thread := .gone }, true)
  | .running req prog next =>
      match prog with
      | .ret reply =>
          if S.maxSize < reply.length then
            some (s, { ℓ with thread := .gone }, false)
          else
            some (s, { ℓ with
              toSender := ℓ.toSender ++ frame S.header reply
              thread := .receiving next }, false)
      | .fail _ => some (s, { ℓ with thread := .gone }, true)
      | .call op rest =>
          some ((S.system.exec req op s).2, { ℓ with
            thread := .running req (rest (S.system.exec req op s).1) next },
            false)
  | .gone => none

/-- Whose turn it is, on which connection. -/
inductive Act
  | send (i : Nat)
  | recv (i k : Nat)
  | work (i : Nat)
  deriving DecidableEq

/-- A step of the network.  A server that was ended does nothing more. -/
def step [DecidableEq β] (S : Service Req Op Res ε β Sess σ)
    (n : Net Req Op Res ε β Sess σ) : Act → Option (Net Req Op Res ε β Sess σ)
  | .send i => ((n.links i).send S.header).map fun ℓ =>
      { n with links := Function.update n.links i ℓ }
  | .recv i k => ((n.links i).recv S.header k).map fun ℓ =>
      { n with links := Function.update n.links i ℓ }
  | .work i =>
      if n.crashed then none
      else (S.work n.shared (n.links i)).map fun worked =>
        { shared := worked.1
          links := Function.update n.links i worked.2.1
          crashed := worked.2.2 }

/-! ## Scripts -/

/-- A script: the messages of a client that the server takes one after another,
from session `sess`, answering greetings as the client wants, and leaves at the
farewell. -/
inductive Scripted (S : Service Req Op Res ε β Sess σ) (farewell : List β) :
    Sess → List (Message β) → Prop
  | ends (sess : Sess) (hLeave : S.react sess farewell = .leave)
      (hNonempty : farewell ≠ []) (hSize : farewell.length ≤ S.maxSize) :
      Scripted S farewell sess []
  | hello {sess next : Sess} {text wanted : List β}
      {outbox : List (Message β)}
      (hReact : S.react sess text = .greet wanted (some next))
      (hNonempty : text ≠ []) (hSize : text.length ≤ S.maxSize)
      (hReply : wanted.length ≤ S.maxSize)
      (hRest : Scripted S farewell next outbox) :
      Scripted S farewell sess (.hello text wanted :: outbox)
  | query {sess next : Sess} {text : List β} {req : Req}
      {outbox : List (Message β)}
      (hReact : S.react sess text = .serve req next)
      (hNonempty : text ≠ []) (hSize : text.length ≤ S.maxSize)
      (hRest : Scripted S farewell next outbox) :
      Scripted S farewell sess (.query text :: outbox)

/-- The requests a client makes. -/
def Service.requests (S : Service Req Op Res ε β Sess σ) :
    Sess → List (Message β) → List Req
  | _, [] => []
  | sess, m :: outbox =>
      match S.react sess m.text with
      | .serve req next => req :: S.requests next outbox
      | .greet _ (some next) => S.requests next outbox
      | _ => []

/-- Connections at their start: the scripts, the farewells and the sessions. -/
def Net.init (s : σ) (scripts : Nat → List (Message β))
    (farewell : Nat → List β) (sess : Nat → Sess) :
    Net Req Op Res ε β Sess σ :=
  { shared := s
    links := fun i =>
      ⟨⟨scripts i, farewell i, .ready, []⟩, [], [], .receiving (sess i)⟩
    crashed := false }

/-! ## Where a connection is -/

/-- The replies to a client's queries are the outcomes of its requests. -/
def Told (answered : List (Done Req ε (List β))) (replies : List (List β)) :
    Prop :=
  answered.map Done.outcome = replies.map .ok

/-- Where a connection is when its client, as one of interleaved requests, is
`a`, and `answered` are its answered requests.  It is the turn of one side,
except while a reply arrives. -/
inductive Stage (S : Service Req Op Res ε β Sess σ) :
    Link Req Op Res ε β Sess → Interleave.Client Req Op Res ε (List β) →
      List (Done Req ε (List β)) → Prop
  | ready {farewell sess outbox replies answered}
      (hScript : Scripted S farewell sess outbox)
      (hTold : Told answered replies) :
      Stage S ⟨⟨outbox, farewell, .ready, replies⟩, [], [], .receiving sess⟩
        ⟨S.requests sess outbox, none⟩ answered
  | asked {farewell sess outbox replies answered} (m : Message β)
      (hScript : Scripted S farewell sess (m :: outbox))
      (hTold : Told answered replies) :
      Stage S ⟨⟨outbox, farewell, .awaiting m [], replies⟩,
          frame S.header m.text, [], .receiving sess⟩
        ⟨S.requests sess (m :: outbox), none⟩ answered
  | sized {farewell sess outbox replies answered} (m : Message β)
      (hScript : Scripted S farewell sess (m :: outbox))
      (hTold : Told answered replies) :
      Stage S ⟨⟨outbox, farewell, .awaiting m [], replies⟩,
          m.text, [], .sized sess m.text.length⟩
        ⟨S.requests sess (m :: outbox), none⟩ answered
  | running {farewell next outbox replies answered} (text : List β)
      (t : Task Req Op Res ε (List β))
      (hScript : Scripted S farewell next outbox)
      (hTold : Told answered replies) :
      Stage S ⟨⟨outbox, farewell, .awaiting (.query text) [], replies⟩,
          [], [], .running t.req t.prog next⟩
        ⟨S.requests next outbox, some t⟩ answered
  | greeted {farewell next outbox replies answered}
      (text : List β) {got rest wanted : List β}
      (hReply : got ++ rest = frame S.header wanted)
      (hSize : wanted.length ≤ S.maxSize)
      (hScript : Scripted S farewell next outbox)
      (hTold : Told answered replies) :
      Stage S ⟨⟨outbox, farewell, .awaiting (.hello text wanted) got, replies⟩,
          [], rest, .receiving next⟩
        ⟨S.requests next outbox, none⟩ answered
  | replied {farewell next outbox replies answered}
      (text : List β) {got rest reply : List β}
      (hReply : got ++ rest = frame S.header reply)
      (hSize : reply.length ≤ S.maxSize)
      (hScript : Scripted S farewell next outbox)
      (hTold : Told answered (replies ++ [reply])) :
      Stage S ⟨⟨outbox, farewell, .awaiting (.query text) got, replies⟩,
          [], rest, .receiving next⟩
        ⟨S.requests next outbox, none⟩ answered
  | leaving {farewell sess replies answered}
      (hScript : Scripted S farewell sess []) (hTold : Told answered replies) :
      Stage S ⟨⟨[], farewell, .closed, replies⟩, frame S.header farewell, [],
          .receiving sess⟩ ⟨[], none⟩ answered
  | leavingSized {farewell sess replies answered}
      (hScript : Scripted S farewell sess []) (hTold : Told answered replies) :
      Stage S ⟨⟨[], farewell, .closed, replies⟩, farewell, [],
          .sized sess farewell.length⟩ ⟨[], none⟩ answered
  | left {farewell replies answered} (hTold : Told answered replies) :
      Stage S ⟨⟨[], farewell, .closed, replies⟩, [], [], .gone⟩ ⟨[], none⟩
        answered
  /-- The last request raised, or its reply could not be sent. -/
  | lost {farewell next outbox replies answered} (text : List β)
      (d : Done Req ε (List β))
      (hLost : ∀ reply, d.outcome = .ok reply → S.maxSize < reply.length)
      (hTold : Told answered replies) :
      Stage S ⟨⟨outbox, farewell, .awaiting (.query text) [], replies⟩, [], [],
          .gone⟩ ⟨S.requests next outbox, none⟩ (answered ++ [d])

section Pieces

variable {h : Header β} {got rest reply : List β}

theorem missing_nil (hWidth : 0 < h.width) : missing h ([] : List β) ≠ 0 := by
  rw [missing, List.length_nil, if_pos hWidth]
  omega

/-- A client waits for no more than the rest of its reply. -/
theorem missing_le (hReply : got ++ rest = frame h reply)
    (hBound : reply.length < h.bound) :
    missing h got ≤ rest.length ∧ (missing h got = 0 → rest = []) := by
  have hLength := congrArg List.length hReply
  rw [List.length_append, length_frame] at hLength
  unfold missing
  split
  · rename_i hShort
    exact ⟨by omega, fun hNone => by omega⟩
  · rename_i hLong
    have hSize : h.read (got.take h.width) = reply.length := by
      have hTake := take_width_frame h reply []
      rw [List.append_nil, ← hReply, List.take_append_of_le_length (by omega)]
        at hTake
      rw [hTake, h.read_write _ hBound]
    rw [hSize]
    refine ⟨by omega, fun hNone => ?_⟩
    exact List.eq_nil_of_length_eq_zero (by omega)

/-- A whole reply is the size and the reply. -/
theorem drop_whole (hReply : got ++ rest = frame h reply)
    (hBound : reply.length < h.bound) (hNone : missing h got = 0) :
    got.drop h.width = reply := by
  obtain rfl := (missing_le hReply hBound).2 hNone
  rw [List.append_nil] at hReply
  have hDrop := drop_width_frame h reply []
  rwa [List.append_nil, List.append_nil, ← hReply] at hDrop

/-- While it waits, something is on its way. -/
theorem missing_pos (hReply : got ++ rest = frame h reply)
    (hBound : reply.length < h.bound) (hMissing : missing h got ≠ 0) :
    rest ≠ [] := by
  rintro rfl
  have hLe := (missing_le hReply hBound).1
  rw [List.length_nil] at hLe
  omega

end Pieces

/-! ## Steps of one connection -/

section Steps

variable {S : Service Req Op Res ε β Sess σ}
  {ℓ ℓ' : Link Req Op Res ε β Sess}
  {a : Interleave.Client Req Op Res ε (List β)}
  {answered : List (Done Req ε (List β))}

theorem Stage.send (h : Stage S ℓ a answered)
    (hSend : ℓ.send S.header = some ℓ') : Stage S ℓ' a answered := by
  cases h with
  | @ready farewell sess outbox replies answered hScript hTold =>
      cases outbox with
      | nil =>
          cases hSend
          exact .leaving hScript hTold
      | cons m outbox =>
          cases hSend
          exact .asked m hScript hTold
  | _ => cases hSend

theorem Stage.recv [DecidableEq β] (h : Stage S ℓ a answered) {k : Nat}
    (hRecv : ℓ.recv S.header k = some ℓ') : Stage S ℓ' a answered := by
  have hWaits := missing_nil S.width_pos
  cases h with
  | asked => simp [Link.recv, hWaits] at hRecv
  | sized => simp [Link.recv, hWaits] at hRecv
  | running => simp [Link.recv, hWaits] at hRecv
  | lost => simp [Link.recv, hWaits] at hRecv
  | @greeted farewell next outbox replies answered text got rest wanted hReply
      hSize hScript hTold =>
      have hBound : wanted.length < S.header.bound :=
        Nat.lt_of_le_of_lt hSize S.maxSize_lt
      simp only [Link.recv] at hRecv
      split at hRecv
      · rename_i hNone
        obtain rfl := (missing_le hReply hBound).2 hNone
        cases hRecv
        rw [Sender.conclude, drop_whole hReply hBound hNone, if_pos rfl]
        exact .ready hScript hTold
      split at hRecv
      · cases hRecv
      · cases hRecv
        refine .greeted text ?_ hSize hScript hTold
        rw [List.append_assoc, List.take_append_drop, hReply]
  | @replied farewell next outbox replies answered text got rest reply hReply
      hSize hScript hTold =>
      have hBound : reply.length < S.header.bound :=
        Nat.lt_of_le_of_lt hSize S.maxSize_lt
      simp only [Link.recv] at hRecv
      split at hRecv
      · rename_i hNone
        obtain rfl := (missing_le hReply hBound).2 hNone
        cases hRecv
        rw [Sender.conclude, drop_whole hReply hBound hNone]
        exact .ready hScript hTold
      split at hRecv
      · cases hRecv
      · cases hRecv
        refine .replied text ?_ hSize hScript hTold
        rw [List.append_assoc, List.take_append_drop, hReply]
  | _ => cases hRecv

/-- What a thread's step is to the interleaved requests: nothing, the start of
the next request, an answer, or an operation.  Only an answer raises. -/
inductive Matched (S : Service Req Op Res ε β Sess σ) (s : σ)
    (a : Interleave.Client Req Op Res ε (List β))
    (answered : List (Done Req ε (List β))) :
    σ → Link Req Op Res ε β Sess → Bool → Prop
  | silent {ℓ' : Link Req Op Res ε β Sess} (h : Stage S ℓ' a answered) :
      Matched S s a answered s ℓ' false
  | starts {ℓ' : Link Req Op Res ε β Sess} (r : Req) (rest : List Req)
      (hClient : a = ⟨r :: rest, none⟩)
      (h : ∀ start, Stage S ℓ' ⟨rest, some ⟨r, start, S.system.body r, []⟩⟩
        answered) : Matched S s a answered s ℓ' false
  | answers {ℓ' : Link Req Op Res ε β Sess} (t : Task Req Op Res ε (List β))
      (outcome : Except ε (List β)) (hRunning : a.running = some t)
      (hProg : t.prog = Prog.ofExcept outcome) (raised : Bool)
      (hRaised : raised = true → ∃ e, outcome = .error e)
      (h : ∀ stop, Stage S ℓ' ⟨a.queue, none⟩
        (answered ++ [⟨t.req, outcome, t.start, stop⟩])) :
      Matched S s a answered s ℓ' raised
  | performs {ℓ' : Link Req Op Res ε β Sess} (t : Task Req Op Res ε (List β))
      (op : Op) (next : Res op → Prog Op Res ε (List β))
      (hRunning : a.running = some t) (hProg : t.prog = .call op next)
      (h : Stage S ℓ' ⟨a.queue, some ⟨t.req, t.start,
        next (S.system.exec t.req op s).1,
        t.seen ++ [⟨op, (S.system.exec t.req op s).1⟩]⟩⟩ answered) :
      Matched S s a answered (S.system.exec t.req op s).2 ℓ' false

/-- A whole message stands where a thread reads. -/
private theorem work_frame {s : σ} {ℓ : Link Req Op Res ε β Sess} {sess : Sess}
    {text : List β} (hThread : ℓ.thread = .receiving sess)
    (hText : ℓ.toThread = frame S.header text)
    (hSize : text.length ≤ S.maxSize) :
    S.work s ℓ = some (s, { ℓ with
      toThread := text, thread := .sized sess text.length }, false) := by
  have hBound : text.length < S.header.bound :=
    Nat.lt_of_le_of_lt hSize S.maxSize_lt
  have hTake := take_width_frame S.header text []
  have hDrop := drop_width_frame S.header text []
  rw [List.append_nil] at hTake hDrop
  rw [List.append_nil] at hDrop
  have hLong : ¬ (frame S.header text).length < S.header.width := by
    rw [length_frame]
    omega
  simp only [Service.work, hThread, hText, hTake, S.header.read_write _ hBound,
    hDrop, if_neg hLong, if_neg (Nat.not_lt.mpr hSize)]

/-- A thread with the size of a message reads the message. -/
private theorem work_sized {s : σ} {ℓ : Link Req Op Res ε β Sess} {sess : Sess}
    {text : List β} (hThread : ℓ.thread = .sized sess text.length)
    (hText : ℓ.toThread = text) (hNonempty : text ≠ []) :
    S.work s ℓ = match S.react sess text with
      | .serve req next => some (s, { ℓ with
          toThread := [], thread := .running req (S.system.body req) next },
            false)
      | .greet reply next => some (s, { ℓ with
          toThread := []
          toSender := ℓ.toSender ++ frame S.header reply
          thread := (next.map .receiving).getD .gone }, next.isNone)
      | .leave => some (s, { ℓ with toThread := [], thread := .gone }, false)
      | .raise => some (s, { ℓ with toThread := [], thread := .gone }, true) := by
  subst hText
  have hSize : ℓ.toThread.length ≠ 0 :=
    fun hZero => hNonempty (List.eq_nil_of_length_eq_zero hZero)
  simp only [Service.work, hThread, Nat.lt_irrefl, if_false, hSize,
    List.take_length, List.drop_length]

/-- **A thread's step** is matched. -/
theorem Stage.work {s s' : σ} {raised : Bool} (h : Stage S ℓ a answered)
    (hWork : S.work s ℓ = some (s', ℓ', raised)) :
    Matched S s a answered s' ℓ' raised := by
  have hIdle : ∀ {ℓ : Link Req Op Res ε β Sess} {sess : Sess},
      ℓ.thread = .receiving sess → ℓ.toThread = [] → S.work s ℓ = none := by
    intro ℓ sess hThread hNone
    simp only [Service.work, hThread, hNone, List.length_nil,
      if_pos S.width_pos]
  cases h with
  | ready hScript hTold => rw [hIdle rfl rfl] at hWork; cases hWork
  | greeted _ hReply hSize hScript hTold =>
      rw [hIdle rfl rfl] at hWork
      cases hWork
  | replied _ hReply hSize hScript hTold =>
      rw [hIdle rfl rfl] at hWork
      cases hWork
  | left hTold => cases hWork
  | lost _ _ hTold => cases hWork
  | asked m hScript hTold =>
      have hSize : m.text.length ≤ S.maxSize := by
        cases hScript <;> assumption
      rw [work_frame rfl rfl hSize] at hWork
      cases hWork
      exact .silent (.sized m hScript hTold)
  | @leaving farewell sess replies answered hScript hTold =>
      have hSize : farewell.length ≤ S.maxSize := by
        cases hScript
        assumption
      rw [work_frame rfl rfl hSize] at hWork
      cases hWork
      exact .silent (.leavingSized hScript hTold)
  | leavingSized hScript hTold =>
      cases hScript with
      | ends sess hLeave hNonempty hSize =>
          rw [work_sized rfl rfl hNonempty, hLeave] at hWork
          cases hWork
          exact .silent (.left hTold)
  | @sized farewell sess outbox replies answered m hScript hTold =>
      cases hScript with
      | @hello _ next text wanted _ hReact hNonempty hSize hReply hRest =>
          rw [work_sized rfl rfl hNonempty, Message.text, hReact] at hWork
          cases hWork
          have hRequests : S.requests sess (.hello text wanted :: outbox) =
              S.requests next outbox := by
            rw [Service.requests, Message.text, hReact]
          rw [hRequests]
          exact .silent (.greeted text rfl hReply hRest hTold)
      | @query _ next text req _ hReact hNonempty hSize hRest =>
          rw [work_sized rfl rfl hNonempty, Message.text, hReact] at hWork
          cases hWork
          have hRequests : S.requests sess (.query text :: outbox) =
              req :: S.requests next outbox := by
            rw [Service.requests, Message.text, hReact]
          rw [hRequests]
          exact .starts req _ rfl fun start =>
            .running text ⟨req, start, S.system.body req, []⟩ hRest hTold
  | @running farewell next outbox replies answered text t hScript hTold =>
      simp only [Service.work] at hWork
      cases hProg : t.prog with
      | ret reply =>
          simp only [hProg] at hWork
          split at hWork
          · rename_i hLong
            cases hWork
            refine .answers t (.ok reply) rfl hProg false
              (fun hRaised => nomatch hRaised) fun stop => ?_
            refine .lost text _ (fun reply' hReply => ?_) hTold
            cases hReply
            exact hLong
          · rename_i hFits
            cases hWork
            refine .answers t (.ok reply) rfl hProg false
              (fun hRaised => nomatch hRaised) fun stop => ?_
            refine .replied text rfl (Nat.not_lt.mp hFits) hScript ?_
            rw [Told, List.map_append, List.map_append, hTold]
            rfl
      | fail e =>
          simp only [hProg] at hWork
          cases hWork
          exact .answers t (.error e) rfl hProg true (fun _ => ⟨e, rfl⟩)
            fun stop => .lost text _ (fun reply hReply => nomatch hReply) hTold
      | call op rest =>
          simp only [hProg] at hWork
          cases hWork
          refine .performs t op rest rfl hProg ?_
          exact .running text ⟨t.req, t.start,
            rest (S.system.exec t.req op s).1,
            t.seen ++ [⟨op, (S.system.exec t.req op s).1⟩]⟩ hScript hTold

/-- A client has the outcomes of its first requests. -/
theorem Stage.replies_grow (h : Stage S ℓ a answered) :
    (ℓ.sender.replies.map Except.ok).IsPrefix (answered.map Done.outcome) := by
  cases h with
  | replied text hReply hSize hScript hTold =>
      rw [hTold, List.map_append]
      exact List.prefix_append _ _
  | lost text d hLost hTold =>
      rw [List.map_append, hTold]
      exact List.prefix_append _ _
  | ready hScript hTold => exact hTold ▸ List.prefix_refl _
  | asked m hScript hTold => exact hTold ▸ List.prefix_refl _
  | sized m hScript hTold => exact hTold ▸ List.prefix_refl _
  | running text t hScript hTold => exact hTold ▸ List.prefix_refl _
  | greeted text hReply hSize hScript hTold =>
      exact hTold ▸ List.prefix_refl _
  | leaving hScript hTold => exact hTold ▸ List.prefix_refl _
  | leavingSized hScript hTold => exact hTold ▸ List.prefix_refl _
  | left hTold => exact hTold ▸ List.prefix_refl _

end Steps

/-! ## The simulation -/

/-- A network and the interleaved requests it amounts to, with the answered
requests of each client. -/
structure Related (S : Service Req Op Res ε β Sess σ) (queues : Nat → List Req)
    (n : Net Req Op Res ε β Sess σ) (c : Config Req Op Res ε (List β) σ)
    (answered : Nat → List (Done Req ε (List β))) : Prop where
  shared : n.shared = c.shared
  stage : ∀ i, Stage S (n.links i) (c.clients i) (answered i)
  /-- Every client's answered requests are its own, one after another. -/
  mine : ∀ i, (answered i).Sublist c.done
  /-- There are no others. -/
  all : ∀ m, (∀ i, m ≤ i → answered i = []) →
    c.done.Perm ((List.range m).flatMap answered)
  order : ∀ i, (answered i).Pairwise fun d d' => d.stop < d'.start
  past : ∀ i, ∀ d ∈ answered i, d.stop < c.time ∧
    ∀ t, (c.clients i).running = some t → d.stop < t.start
  /-- Nothing is lost or done twice. -/
  account : ∀ i, (answered i).map Done.req ++
    ((c.clients i).running.map Task.req).toList ++ (c.clients i).queue = queues i
  crash : n.crashed = true → ∃ d ∈ c.done, ∃ e, d.outcome = .error e

namespace Related

variable {S : Service Req Op Res ε β Sess σ} {queues : Nat → List Req}
  {n : Net Req Op Res ε β Sess σ} {c : Config Req Op Res ε (List β) σ}
  {answered : Nat → List (Done Req ε (List β))} {i : Nat}

/-- A step that the requests do not see. -/
theorem silent (h : Related S queues n c answered)
    {ℓ : Link Req Op Res ε β Sess} (hStage : Stage S ℓ (c.clients i) (answered i))
    {crashed : Bool} (hCrash : crashed = true → n.crashed = true) :
    Related S queues ⟨n.shared, Function.update n.links i ℓ, crashed⟩ c
      answered :=
  { h with
    crash := fun hRaised => h.crash (hCrash hRaised)
    stage := (Function.forall_update_iff n.links (p := fun j ℓ =>
      Stage S ℓ (c.clients j) (answered j))).mpr
        ⟨hStage, fun j _ => h.stage j⟩ }

theorem starts (h : Related S queues n c answered)
    {ℓ : Link Req Op Res ε β Sess} {r : Req} {rest : List Req}
    (hClient : c.clients i = ⟨r :: rest, none⟩)
    (hStage : ∀ start, Stage S ℓ
      ⟨rest, some ⟨r, start, S.system.body r, []⟩⟩ (answered i)) :
    Related S queues ⟨n.shared, Function.update n.links i ℓ, false⟩
      (c.begin S.system i r rest) answered := by
  refine
    { shared := h.shared
      crash := fun hRaised => nomatch hRaised
      stage := ?_
      mine := h.mine
      all := h.all
      order := h.order
      past := ?_
      account := ?_ }
  · intro j
    by_cases hj : j = i
    · subst hj
      simp only [Config.begin, Function.update_self]
      exact hStage c.time
    · simp only [Config.begin, Function.update_of_ne hj]
      exact h.stage j
  · intro j d hMem
    obtain ⟨hPast, hBefore⟩ := h.past j d hMem
    refine ⟨Nat.lt_succ_of_lt hPast, ?_⟩
    by_cases hj : j = i
    · subst hj
      simp only [Config.begin, Function.update_self, Option.some.injEq]
      rintro t rfl
      exact hPast
    · simp only [Config.begin, Function.update_of_ne hj]
      exact hBefore
  · intro j
    rw [← h.account j]
    by_cases hj : j = i
    · subst hj
      simp [Config.begin, hClient]
    · simp only [Config.begin, Function.update_of_ne hj]

theorem performs (h : Related S queues n c answered)
    {ℓ : Link Req Op Res ε β Sess} {t : Task Req Op Res ε (List β)} {op : Op}
    {next : Res op → Prog Op Res ε (List β)}
    (hRunning : (c.clients i).running = some t)
    (hStage : Stage S ℓ ⟨(c.clients i).queue, some ⟨t.req, t.start,
        next (S.system.exec t.req op n.shared).1,
        t.seen ++ [⟨op, (S.system.exec t.req op n.shared).1⟩]⟩⟩ (answered i)) :
    Related S queues ⟨(S.system.exec t.req op n.shared).2,
        Function.update n.links i ℓ, false⟩
      (c.advance S.system i t op next) answered := by
  rw [h.shared] at hStage ⊢
  refine
    { shared := rfl
      crash := fun hRaised => nomatch hRaised
      stage := ?_
      mine := h.mine
      all := h.all
      order := h.order
      past := ?_
      account := ?_ }
  · intro j
    by_cases hj : j = i
    · subst hj
      simp only [Config.advance, Function.update_self]
      exact hStage
    · simp only [Config.advance, Function.update_of_ne hj]
      exact h.stage j
  · intro j d hMem
    obtain ⟨hPast, hBefore⟩ := h.past j d hMem
    refine ⟨Nat.lt_succ_of_lt hPast, ?_⟩
    by_cases hj : j = i
    · subst hj
      simp only [Config.advance, Function.update_self, Option.some.injEq]
      rintro t' rfl
      exact hBefore t hRunning
    · simp only [Config.advance, Function.update_of_ne hj]
      exact hBefore
  · intro j
    rw [← h.account j]
    by_cases hj : j = i
    · subst hj
      simp [Config.advance, hRunning]
    · simp only [Config.advance, Function.update_of_ne hj]

/-- The answered requests of the clients, after one more of client `i`. -/
theorem answers (h : Related S queues n c answered)
    {ℓ : Link Req Op Res ε β Sess} {t : Task Req Op Res ε (List β)}
    {outcome : Except ε (List β)} (hRunning : (c.clients i).running = some t)
    (hStage : ∀ stop, Stage S ℓ ⟨(c.clients i).queue, none⟩
      (answered i ++ [⟨t.req, outcome, t.start, stop⟩])) {crashed : Bool}
    (hCrash : crashed = true → ∃ e, outcome = .error e) :
    Related S queues ⟨n.shared, Function.update n.links i ℓ, crashed⟩
      (c.answer i t outcome)
      (Function.update answered i
        (answered i ++ [⟨t.req, outcome, t.start, c.time⟩])) := by
  refine
    { shared := h.shared
      crash := fun hRaised =>
        ⟨_, List.mem_append_right _ List.mem_cons_self, hCrash hRaised⟩
      stage := ?_
      mine := ?_
      all := ?_
      order := ?_
      past := ?_
      account := ?_ }
  · intro j
    by_cases hj : j = i
    · subst hj
      simp only [Config.answer, Function.update_self]
      exact hStage c.time
    · simp only [Config.answer, Function.update_of_ne hj]
      exact h.stage j
  · intro j
    by_cases hj : j = i
    · subst hj
      rw [Function.update_self]
      exact (h.mine j).append (List.Sublist.refl _)
    · rw [Function.update_of_ne hj]
      exact (h.mine j).trans (List.sublist_append_left _ _)
  · intro m hNone
    have hi : i < m := by
      by_contra hLe
      have hEmpty := hNone i (Nat.not_lt.mp hLe)
      rw [Function.update_self] at hEmpty
      simp at hEmpty
    have hOld : ∀ j, m ≤ j → answered j = [] := by
      intro j hj
      have hEmpty := hNone j hj
      rwa [Function.update_of_ne (by omega)] at hEmpty
    refine ((h.all m hOld).append_right _).trans ?_
    refine (perm_flatMap_of_perm List.nodup_range (List.mem_range.mpr hi) _ ?_
      fun j hj => Function.update_of_ne hj _ _).symm
    rw [Function.update_self]
  · intro j
    by_cases hj : j = i
    · subst hj
      rw [Function.update_self, List.pairwise_append]
      refine ⟨h.order j, List.pairwise_singleton _ _, fun d hMem d' hNew => ?_⟩
      rw [List.mem_singleton.mp hNew]
      exact (h.past j d hMem).2 t hRunning
    · rw [Function.update_of_ne hj]
      exact h.order j
  · intro j d hMem
    by_cases hj : j = i
    · subst hj
      rw [Function.update_self] at hMem
      simp only [Config.answer, Function.update_self]
      refine ⟨?_, fun t' hNone => (Option.some_ne_none t' hNone.symm).elim⟩
      rcases List.mem_append.mp hMem with hOld | hNew
      · exact Nat.lt_succ_of_lt (h.past j d hOld).1
      · rw [List.mem_singleton.mp hNew]
        exact Nat.lt_succ_self _
    · rw [Function.update_of_ne hj] at hMem
      simp only [Config.answer, Function.update_of_ne hj]
      obtain ⟨hPast, hBefore⟩ := h.past j d hMem
      exact ⟨Nat.lt_succ_of_lt hPast, hBefore⟩
  · intro j
    rw [← h.account j]
    by_cases hj : j = i
    · subst hj
      simp [Config.answer, hRunning]
    · simp only [Config.answer, Function.update_of_ne hj]

/-- **A step of the network** is a step of the interleaved requests, or none. -/
theorem step [DecidableEq β] (h : Related S queues n c answered) {a : Act}
    {n' : Net Req Op Res ε β Sess σ} (hStep : Transport.step S n a = some n') :
    ∃ c' answered', (c' = c ∨ ∃ i, Interleave.step S.system c i = some c') ∧
      Related S queues n' c' answered' := by
  cases a with
  | send i =>
      obtain ⟨ℓ, hSend, rfl⟩ := Option.map_eq_some_iff.mp hStep
      exact ⟨c, answered, .inl rfl, h.silent ((h.stage i).send hSend) id⟩
  | recv i k =>
      obtain ⟨ℓ, hRecv, rfl⟩ := Option.map_eq_some_iff.mp hStep
      exact ⟨c, answered, .inl rfl, h.silent ((h.stage i).recv hRecv) id⟩
  | work i =>
      simp only [Transport.step] at hStep
      split at hStep
      · cases hStep
      obtain ⟨⟨s', ℓ, raised⟩, hWork, rfl⟩ := Option.map_eq_some_iff.mp hStep
      cases (h.stage i).work hWork with
      | silent hStage =>
          exact ⟨c, answered, .inl rfl,
            h.silent hStage fun hRaised => nomatch hRaised⟩
      | starts r rest hClient hStage =>
          refine ⟨_, answered, .inr ⟨i, ?_⟩, h.starts hClient hStage⟩
          simp only [Interleave.step, hClient]
      | answers t outcome hRunning hProg raised hRaised hStage =>
          refine ⟨_, _, .inr ⟨i, ?_⟩, h.answers hRunning hStage hRaised⟩
          cases outcome <;>
            simp only [Interleave.step, hRunning, hProg, Prog.ofExcept]
      | performs t op next hRunning hProg hStage =>
          refine ⟨_, answered, .inr ⟨i, ?_⟩, h.performs hRunning hStage⟩
          simp only [Interleave.step, hRunning, hProg]

end Related

/-- The replies a client has are the outcomes of its first requests. -/
theorem Related.outcome_of_reply {S : Service Req Op Res ε β Sess σ}
    {queues : Nat → List Req} {n : Net Req Op Res ε β Sess σ}
    {c : Config Req Op Res ε (List β) σ}
    {answered : Nat → List (Done Req ε (List β))}
    (h : Related S queues n c answered) {i k : Nat} {reply : List β}
    (hReply : (n.links i).sender.replies[k]? = some reply) :
    ∃ d ∈ c.done, (queues i)[k]? = some d.req ∧ d.outcome = .ok reply := by
  have hOutcome : ((answered i).map Done.outcome)[k]? = some (.ok reply) := by
    obtain ⟨more, hMore⟩ := (h.stage i).replies_grow
    have hIndex := (List.getElem?_eq_some_iff.mp hReply).1
    rw [← hMore, List.getElem?_append_left (by rwa [List.length_map]),
      List.getElem?_map, hReply]
    rfl
  rw [List.getElem?_map] at hOutcome
  obtain ⟨d, hd, hOk⟩ := Option.map_eq_some_iff.mp hOutcome
  refine ⟨d, (h.mine i).subset (List.mem_of_getElem? hd), ?_, hOk⟩
  have hIndex := (List.getElem?_eq_some_iff.mp hd).1
  rw [← h.account i, List.append_assoc,
    List.getElem?_append_left (by rwa [List.length_map]), List.getElem?_map, hd]
  rfl

/-! ## Progress -/

/-- The connection an act is on. -/
def Act.link : Act → Nat
  | send i => i
  | recv i _ => i
  | work i => i

/-- What happens on a connection is its own affair. -/
theorem links_of_ne [DecidableEq β] {S : Service Req Op Res ε β Sess σ}
    {n n' : Net Req Op Res ε β Sess σ} {a : Act}
    (hStep : Transport.step S n a = some n') {i : Nat} (hi : a.link ≠ i) :
    n'.links i = n.links i := by
  cases a with
  | send j =>
      obtain ⟨ℓ, -, rfl⟩ := Option.map_eq_some_iff.mp hStep
      exact Function.update_of_ne hi.symm _ _
  | recv j k =>
      obtain ⟨ℓ, -, rfl⟩ := Option.map_eq_some_iff.mp hStep
      exact Function.update_of_ne hi.symm _ _
  | work j =>
      simp only [Transport.step] at hStep
      split at hStep
      · cases hStep
      obtain ⟨worked, -, rfl⟩ := Option.map_eq_some_iff.mp hStep
      exact Function.update_of_ne hi.symm _ _

theorem run_links_of_ne [DecidableEq β] {S : Service Req Op Res ε β Sess σ}
    {acts : List Act} {n n' : Net Req Op Res ε β Sess σ}
    (hRun : run (Transport.step S) acts n = some n') {i : Nat}
    (hi : ∀ a ∈ acts, a.link ≠ i) : n'.links i = n.links i :=
  run_invariant (fun _ _ _ hSame hHere hStep =>
    (links_of_ne hStep hHere).trans hSame) (allSteps_of_mem hi n) rfl hRun

/-- The client is done, and so is the thread with what it sent. -/
def Link.Over (ℓ : Link Req Op Res ε β Sess) : Prop :=
  ℓ.toThread = [] ∧ match ℓ.sender.phase with
    | .closed => True
    | _ => False

/-- A connection that is over has everything answered. -/
theorem Stage.over {S : Service Req Op Res ε β Sess σ}
    {ℓ : Link Req Op Res ε β Sess}
    {a : Interleave.Client Req Op Res ε (List β)}
    {answered : List (Done Req ε (List β))} (h : Stage S ℓ a answered)
    (hOver : ℓ.Over) :
    ℓ.sender.outbox = [] ∧ a = ⟨[], none⟩ ∧ Told answered ℓ.sender.replies := by
  cases h with
  | leaving hScript hTold => exact ⟨rfl, rfl, hTold⟩
  | leavingSized hScript hTold => exact ⟨rfl, rfl, hTold⟩
  | left hTold => exact ⟨rfl, rfl, hTold⟩
  | _ => exact hOver.2.elim

/-- At every stage one side can go on, unless the connection is over or the
reply to its last request was lost. -/
theorem Stage.enabled [DecidableEq β] {S : Service Req Op Res ε β Sess σ}
    {ℓ : Link Req Op Res ε β Sess}
    {a : Interleave.Client Req Op Res ε (List β)}
    {answered : List (Done Req ε (List β))} (h : Stage S ℓ a answered) (s : σ) :
    ℓ.Over ∨ (ℓ.send S.header).isSome = true ∨
      (∃ k, (ℓ.recv S.header k).isSome = true) ∨
      (S.work s ℓ).isSome = true ∨
      ∃ d ∈ answered, ∀ reply, d.outcome = .ok reply →
        S.maxSize < reply.length := by
  cases h with
  | @ready farewell sess outbox replies answered hScript hTold =>
      refine .inr (.inl ?_)
      cases outbox <;> rfl
  | asked m hScript hTold =>
      have hSize : m.text.length ≤ S.maxSize := by
        cases hScript <;> assumption
      exact .inr (.inr (.inr (.inl (by rw [work_frame rfl rfl hSize]; rfl))))
  | sized m hScript hTold =>
      refine .inr (.inr (.inr (.inl ?_)))
      cases hScript with
      | hello hReact hNonempty hSize hReply hRest =>
          rw [work_sized rfl rfl hNonempty, Message.text, hReact]
          rfl
      | query hReact hNonempty hSize hRest =>
          rw [work_sized rfl rfl hNonempty, Message.text, hReact]
          rfl
  | running text t hScript hTold =>
      refine .inr (.inr (.inr (.inl ?_)))
      simp only [Service.work]
      cases t.prog with
      | ret reply =>
          simp only
          split <;> rfl
      | fail e => rfl
      | call op next => rfl
  | @greeted farewell next outbox replies answered text got rest wanted hReply
      hSize hScript hTold =>
      refine .inr (.inr (.inl ⟨0, ?_⟩))
      have hBound := Nat.lt_of_le_of_lt hSize S.maxSize_lt
      have hNone := missing_pos hReply hBound
      simp only [Link.recv]
      split
      · rfl
      · rename_i hMissing
        rw [if_neg (hNone hMissing)]
        rfl
  | @replied farewell next outbox replies answered text got rest reply hReply
      hSize hScript hTold =>
      refine .inr (.inr (.inl ⟨0, ?_⟩))
      have hBound := Nat.lt_of_le_of_lt hSize S.maxSize_lt
      have hNone := missing_pos hReply hBound
      simp only [Link.recv]
      split
      · rfl
      · rename_i hMissing
        rw [if_neg (hNone hMissing)]
        rfl
  | @leaving farewell sess replies answered hScript hTold =>
      have hSize : farewell.length ≤ S.maxSize := by
        cases hScript
        assumption
      exact .inr (.inr (.inr (.inl (by rw [work_frame rfl rfl hSize]; rfl))))
  | leavingSized hScript hTold =>
      refine .inr (.inr (.inr (.inl ?_)))
      cases hScript with
      | ends sess hLeave hNonempty hSize =>
          rw [work_sized rfl rfl hNonempty, hLeave]
          rfl
  | left hTold => exact .inl ⟨rfl, trivial⟩
  | lost text d hLost hTold =>
      exact .inr (.inr (.inr (.inr
        ⟨d, List.mem_append_right _ List.mem_cons_self, hLost⟩)))

/-- **A connection never waits on both sides.** While no request raised and
every reply could be sent, each connection is over or has a next step of its
own. -/
theorem Related.progress [DecidableEq β] {S : Service Req Op Res ε β Sess σ}
    {queues : Nat → List Req} {n : Net Req Op Res ε β Sess σ}
    {c : Config Req Op Res ε (List β) σ}
    {answered : Nat → List (Done Req ε (List β))}
    (h : Related S queues n c answered)
    (hReplies : ∀ d ∈ c.done, ∃ reply, d.outcome = .ok reply ∧
      reply.length ≤ S.maxSize) (i : Nat) :
    (n.links i).Over ∨
      ∃ a, Act.link a = i ∧ (Transport.step S n a).isSome = true := by
  have hUp : n.crashed = false := by
    by_contra hCrashed
    obtain ⟨d, hMem, e, hError⟩ := h.crash (Bool.not_eq_false _ ▸ hCrashed)
    obtain ⟨reply, hOk, -⟩ := hReplies d hMem
    rw [hError] at hOk
    cases hOk
  rcases (h.stage i).enabled n.shared with hOver | hSend | ⟨k, hRecv⟩ | hWork |
    ⟨d, hMem, hLost⟩
  · exact .inl hOver
  · exact .inr ⟨.send i, rfl, by rw [Transport.step, Option.isSome_map]; exact hSend⟩
  · exact .inr ⟨.recv i k, rfl, by
      rw [Transport.step, Option.isSome_map]; exact hRecv⟩
  · refine .inr ⟨.work i, rfl, ?_⟩
    rw [Transport.step, hUp, if_neg Bool.false_ne_true, Option.isSome_map]
    exact hWork
  · obtain ⟨reply, hOk, hFits⟩ := hReplies d ((h.mine i).subset hMem)
    exact absurd (hLost reply hOk) (Nat.not_lt.mpr hFits)

/-- Connections at their start, and no request yet. -/
theorem Related.init {S : Service Req Op Res ε β Sess σ} (s : σ)
    {scripts : Nat → List (Message β)} {farewell : Nat → List β}
    {sess : Nat → Sess}
    (hScripts : ∀ i, Scripted S (farewell i) (sess i) (scripts i)) :
    Related S (fun i => S.requests (sess i) (scripts i))
      (Net.init s scripts farewell sess)
      (Config.init s fun i => S.requests (sess i) (scripts i)) fun _ => [] :=
  { shared := rfl
    stage := fun i => .ready (hScripts i) rfl
    mine := fun i => List.nil_sublist _
    all := fun m _ => by simp [Config.init]
    order := fun i => .nil
    past := fun i d hMem => nomatch hMem
    account := fun i => rfl
    crash := fun hRaised => nomatch hRaised }

/-! ## Every run ends -/

/-- A bound on the steps a thread still takes on what it was sent, if a request
performs at most `most` operations. -/
inductive Thread.Within (most : Nat) :
    List β → Thread Req Op Res ε β Sess → Nat → Prop
  | waiting (sess : Sess) : Within most [] (.receiving sess) 0
  | sent (text : List β) (sess : Sess) :
      Within most text (.receiving sess) (most + 3)
  | sized (text : List β) (sess : Sess) (size : Nat) :
      Within most text (.sized sess size) (most + 2)
  | running (text : List β) (req : Req) {prog : Prog Op Res ε (List β)}
      (next : Sess) {n : Nat} (hProg : prog.Within n) (hn : n ≤ most) :
      Within most text (.running req prog next) (n + 1)
  | gone (text : List β) : Within most text .gone 0

theorem Thread.Within.of_receiving {most n : Nat} {text : List β} {sess : Sess}
    (h : (Thread.receiving sess : Thread Req Op Res ε β Sess).Within most text n)
    (hText : text ≠ []) : n = most + 3 := by
  cases h with
  | waiting => exact absurd rfl hText
  | sent => rfl

theorem Thread.Within.of_sized {most n size : Nat} {text : List β} {sess : Sess}
    (h : (Thread.sized sess size : Thread Req Op Res ε β Sess).Within most text
      n) : n = most + 2 := by
  cases h
  rfl

theorem Thread.Within.of_running {most n : Nat} {text : List β} {req : Req}
    {prog : Prog Op Res ε (List β)} {next : Sess}
    (h : (Thread.running req prog next : Thread Req Op Res ε β Sess).Within most
      text n) : ∃ m, n = m + 1 ∧ prog.Within m ∧ m ≤ most := by
  cases h with
  | @running text req prog next m hProg hm => exact ⟨m, rfl, hProg, hm⟩

/-- A bound on the steps a client still takes, and those the server takes on
what it has still to send; a reply comes in at most `pieces`. -/
def Sender.budget (most pieces : Nat) (c : Sender β) : Nat :=
  match c.phase with
  | .ready => c.outbox.length * (most + pieces + 5) + (most + 4)
  | .awaiting _ got => c.outbox.length * (most + pieces + 5) + (most + 4) +
      (pieces + 1 - got.length)
  | .closed => 0

/-- A bound on the steps of a connection. -/
def Link.Within (S : Service Req Op Res ε β Sess σ) (most : Nat)
    (ℓ : Link Req Op Res ε β Sess) (k : Nat) : Prop :=
  ∃ n, ℓ.thread.Within most ℓ.toThread n ∧
    ℓ.sender.budget most (S.header.width + S.maxSize) + n ≤ k

section Ends

variable {S : Service Req Op Res ε β Sess σ} {most k : Nat}
  {ℓ ℓ' : Link Req Op Res ε β Sess}
  {a : Interleave.Client Req Op Res ε (List β)}
  {answered : List (Done Req ε (List β))}

/-- Sending pays for the steps the server takes on the message and for those in
which the reply is read. -/
theorem Link.Within.send (hStage : Stage S ℓ a answered)
    (h : ℓ.Within S most k) (hSend : ℓ.send S.header = some ℓ') :
    ∃ k' < k, ℓ'.Within S most k' := by
  obtain ⟨n, -, hBudget⟩ := h
  cases hStage with
  | @ready farewell sess outbox replies answered hScript hTold =>
      cases outbox with
      | nil =>
          cases hSend
          refine ⟨most + 3, ?_, most + 3, .sent _ sess, ?_⟩
          · simp only [Sender.budget, List.length_nil] at hBudget
            omega
          · simp only [Sender.budget]
            omega
      | cons m outbox =>
          cases hSend
          simp only [Sender.budget, List.length_cons, Nat.succ_mul] at hBudget
          refine ⟨k - 1, by omega, most + 3, .sent _ sess, ?_⟩
          simp only [Sender.budget, List.length_nil]
          omega
  | _ => cases hSend

/-- Every piece of a reply is at least one symbol. -/
theorem Link.Within.recv [DecidableEq β] (hStage : Stage S ℓ a answered)
    (h : ℓ.Within S most k) {piece : Nat}
    (hRecv : ℓ.recv S.header piece = some ℓ') :
    ∃ k' < k, ℓ'.Within S most k' := by
  have hPiece : ∀ {asked : Message β} {got rest reply : List β}
      {outbox : List (Message β)} {farewell : List β} {replies : List (List β)}
      {next : Sess},
      got ++ rest = frame S.header reply → reply.length ≤ S.maxSize →
      Link.Within S most (⟨⟨outbox, farewell, .awaiting asked got, replies⟩, [],
        rest, .receiving next⟩ : Link Req Op Res ε β Sess) k →
      Link.recv S.header piece (⟨⟨outbox, farewell, .awaiting asked got,
        replies⟩, [], rest, .receiving next⟩ : Link Req Op Res ε β Sess) =
          some ℓ' →
      (missing S.header got = 0 → ((Sender.mk outbox farewell
        (.awaiting asked got) replies).conclude (got.drop S.header.width)
          asked).phase = .ready ∧ ((Sender.mk outbox farewell
        (.awaiting asked got) replies).conclude (got.drop S.header.width)
          asked).outbox = outbox) →
      ∃ k' < k, ℓ'.Within S most k' := by
    intro asked got rest reply outbox farewell replies next hReply hSize h hRecv
      hReady
    obtain ⟨n, -, hBudget⟩ := h
    have hLength := congrArg List.length hReply
    rw [List.length_append, length_frame] at hLength
    simp only [Sender.budget] at hBudget
    simp only [Link.recv] at hRecv
    split at hRecv
    · rename_i hNone
      cases hRecv
      obtain ⟨hPhase, hOutbox⟩ := hReady hNone
      refine ⟨k - 1, by omega, 0, .waiting next, ?_⟩
      simp only [Sender.budget, hPhase, hOutbox]
      omega
    split at hRecv
    · cases hRecv
    · rename_i hMissing hSome
      cases hRecv
      have hRest := List.length_pos_of_ne_nil hSome
      refine ⟨k - 1, by omega, 0, .waiting next, ?_⟩
      simp only [Sender.budget, List.length_append, List.length_take]
      omega
  have hWaits := missing_nil S.width_pos
  cases hStage with
  | asked => simp [Link.recv, hWaits] at hRecv
  | sized => simp [Link.recv, hWaits] at hRecv
  | running => simp [Link.recv, hWaits] at hRecv
  | lost => simp [Link.recv, hWaits] at hRecv
  | @greeted farewell next outbox replies answered text got rest wanted hReply
      hSize hScript hTold =>
      refine hPiece hReply hSize h hRecv fun hNone => ?_
      have hBound := Nat.lt_of_le_of_lt hSize S.maxSize_lt
      rw [Sender.conclude, drop_whole hReply hBound hNone, if_pos rfl]
      exact ⟨rfl, rfl⟩
  | @replied farewell next outbox replies answered text got rest reply hReply
      hSize hScript hTold =>
      exact hPiece hReply hSize h hRecv fun _ => ⟨rfl, rfl⟩
  | _ => cases hRecv

/-- A thread's step is one of those paid for. -/
theorem Link.Within.work (hBodies : ∀ req, (S.system.body req).Within most)
    (hStage : Stage S ℓ a answered) (h : ℓ.Within S most k) {s s' : σ}
    {raised : Bool} (hWork : S.work s ℓ = some (s', ℓ', raised)) :
    ∃ k' < k, ℓ'.Within S most k' := by
  -- the sender is not concerned
  have hPaid : ∀ {n n' : Nat}, ℓ'.sender = ℓ.sender →
      ℓ'.thread.Within most ℓ'.toThread n' →
      ℓ.sender.budget most (S.header.width + S.maxSize) + n ≤ k → n' < n →
      ∃ k' < k, ℓ'.Within S most k' := by
    intro n n' hSender hThread hBudget hLess
    refine ⟨k - 1, by omega, n', hThread, ?_⟩
    rw [hSender]
    omega
  obtain ⟨n, hThread, hBudget⟩ := h
  have hIdle : ∀ {ℓ : Link Req Op Res ε β Sess} {sess : Sess},
      ℓ.thread = .receiving sess → ℓ.toThread = [] → S.work s ℓ = none := by
    intro ℓ sess hThread hNone
    simp only [Service.work, hThread, hNone, List.length_nil,
      if_pos S.width_pos]
  cases hStage with
  | ready hScript hTold => rw [hIdle rfl rfl] at hWork; cases hWork
  | greeted _ hReply hSize hScript hTold =>
      rw [hIdle rfl rfl] at hWork
      cases hWork
  | replied _ hReply hSize hScript hTold =>
      rw [hIdle rfl rfl] at hWork
      cases hWork
  | left hTold => cases hWork
  | lost _ _ hTold => cases hWork
  | asked m hScript hTold =>
      have hSize : m.text.length ≤ S.maxSize := by
        cases hScript <;> assumption
      rw [work_frame rfl rfl hSize] at hWork
      cases hWork
      obtain rfl := hThread.of_receiving (frame_ne_nil S.header S.width_pos _)
      exact hPaid rfl (.sized _ _ _) hBudget (by omega)
  | @leaving farewell sess replies answered hScript hTold =>
      have hSize : farewell.length ≤ S.maxSize := by
        cases hScript
        assumption
      rw [work_frame rfl rfl hSize] at hWork
      cases hWork
      obtain rfl := hThread.of_receiving (frame_ne_nil S.header S.width_pos _)
      exact hPaid rfl (.sized _ _ _) hBudget (by omega)
  | leavingSized hScript hTold =>
      cases hScript with
      | ends sess hLeave hNonempty hSize =>
          rw [work_sized rfl rfl hNonempty, hLeave] at hWork
          cases hWork
          obtain rfl := hThread.of_sized
          exact hPaid rfl (.gone _) hBudget (by omega)
  | @sized farewell sess outbox replies answered m hScript hTold =>
      obtain rfl := hThread.of_sized
      cases hScript with
      | hello hReact hNonempty hSize hReply hRest =>
          rw [work_sized rfl rfl hNonempty, Message.text, hReact] at hWork
          cases hWork
          exact hPaid rfl (.waiting _) hBudget (by omega)
      | query hReact hNonempty hSize hRest =>
          rw [work_sized rfl rfl hNonempty, Message.text, hReact] at hWork
          cases hWork
          exact hPaid rfl (.running _ _ _ (hBodies _) (Nat.le_refl _)) hBudget
            (by omega)
  | @running farewell next outbox replies answered text t hScript hTold =>
      obtain ⟨m, rfl, hProg, hm⟩ := hThread.of_running
      simp only [Service.work] at hWork
      cases hCase : t.prog with
      | ret reply =>
          simp only [hCase] at hWork
          split at hWork
          · cases hWork
            exact hPaid rfl (.gone _) hBudget (by omega)
          · cases hWork
            exact hPaid rfl (.waiting _) hBudget (by omega)
      | fail e =>
          simp only [hCase] at hWork
          cases hWork
          exact hPaid rfl (.gone _) hBudget (by omega)
      | call op rest =>
          rw [hCase] at hProg
          simp only [hCase] at hWork
          cases hWork
          obtain ⟨m', rfl, hNext⟩ := hProg.next
          exact hPaid rfl (.running _ _ _ (hNext _) (by omega)) hBudget
            (by omega)

end Ends

section Runs

variable [DecidableEq β] {S : Service Req Op Res ε β Sess σ} {most : Nat}
  (hBodies : ∀ req, (S.system.body req).Within most)
include hBodies

/-- Every step is paid for on its connection. -/
theorem Related.pays {queues : Nat → List Req} {n n' : Net Req Op Res ε β Sess σ}
    {c : Config Req Op Res ε (List β) σ}
    {answered : Nat → List (Done Req ε (List β))}
    (h : Related S queues n c answered) {a : Act}
    (hStep : Transport.step S n a = some n') {k : Nat}
    (hWithin : (n.links a.link).Within S most k) :
    ∃ k' < k, (n'.links a.link).Within S most k' := by
  cases a with
  | send i =>
      obtain ⟨ℓ, hSend, rfl⟩ := Option.map_eq_some_iff.mp hStep
      simp only [Act.link, Function.update_self]
      exact hWithin.send (h.stage i) hSend
  | recv i piece =>
      obtain ⟨ℓ, hRecv, rfl⟩ := Option.map_eq_some_iff.mp hStep
      simp only [Act.link, Function.update_self]
      exact hWithin.recv (h.stage i) hRecv
  | work i =>
      simp only [Transport.step] at hStep
      split at hStep
      · cases hStep
      obtain ⟨⟨s', ℓ, raised⟩, hWork, rfl⟩ := Option.map_eq_some_iff.mp hStep
      simp only [Act.link, Function.update_self]
      exact hWithin.work hBodies (h.stage i) hWork

/-- **Every run ends**: there is a bound on the steps that some clients and
their threads take. -/
theorem length_le_of_run (s : σ) {scripts : Nat → List (Message β)}
    {farewell : Nat → List β} {sess : Nat → Sess}
    (hScripts : ∀ i, Scripted S (farewell i) (sess i) (scripts i))
    {acts : List Act} {n : Net Req Op Res ε β Sess σ}
    (hRun : run (Transport.step S) acts
      (Net.init s scripts farewell sess) = some n)
    {clients : Nat} (hHere : ∀ a ∈ acts, a.link < clients) :
    acts.length ≤ ∑ i ∈ Finset.range clients, ((scripts i).length *
      (most + (S.header.width + S.maxSize) + 5) + (most + 4)) := by
  refine length_le_of_pays Act.link
    (fun n => ∃ c answered, Related S (fun i =>
      S.requests (sess i) (scripts i)) n c answered)
    (fun n i k => (n.links i).Within S most k) ?_
    ⟨_, _, Related.init s hScripts⟩
    (fun i => ⟨0, .waiting _, Nat.le_refl _⟩) hRun hHere
  rintro n a n' ⟨c, answered, h⟩ hStep
  obtain ⟨c', answered', -, h'⟩ := h.step hStep
  refine ⟨⟨c', answered', h'⟩, fun i k hi hWithin => ?_, fun k hWithin =>
    h.pays hBodies hStep hWithin⟩
  rwa [links_of_ne hStep fun hSame => hi hSame.symm]

end Runs

/-- Every state of an interleaved run is met by a run of the network, as far as
the threads share it. -/
def Meets [DecidableEq β] (S : Service Req Op Res ε β Sess σ)
    (first : Net Req Op Res ε β Sess σ) (acts : List Act)
    (init : Config Req Op Res ε (List β) σ) (schedule : List Nat) : Prop :=
  ∀ m c, run (Interleave.step S.system) (schedule.take m) init = some c →
    ∃ k n, k ≤ acts.length ∧
      run (Transport.step S) (acts.take k) first = some n ∧
      n.shared = c.shared

/-- **Every run of a network is one of interleaved requests.** -/
theorem exists_related [DecidableEq β] (S : Service Req Op Res ε β Sess σ)
    (s : σ) {scripts : Nat → List (Message β)} {farewell : Nat → List β}
    {sess : Nat → Sess}
    (hScripts : ∀ i, Scripted S (farewell i) (sess i) (scripts i))
    {acts : List Act} {n : Net Req Op Res ε β Sess σ}
    (hRun : run (Transport.step S) acts
      (Net.init s scripts farewell sess) = some n) :
    ∃ schedule c answered, run (Interleave.step S.system) schedule
        (Config.init s fun i => S.requests (sess i) (scripts i)) = some c ∧
      Related S (fun i => S.requests (sess i) (scripts i)) n c answered ∧
      Meets S (Net.init s scripts farewell sess) acts
        (Config.init s fun i => S.requests (sess i) (scripts i)) schedule := by
  refine run_history (P := fun acts n => ∃ schedule c answered,
    run (Interleave.step S.system) schedule
        (Config.init s fun i => S.requests (sess i) (scripts i)) = some c ∧
      Related S (fun i => S.requests (sess i) (scripts i)) n c answered ∧
      Meets S (Net.init s scripts farewell sess) acts
        (Config.init s fun i => S.requests (sess i) (scripts i)) schedule)
    ⟨[], _, fun _ => [], rfl, ?_, ?_⟩ ?_ hRun
  · exact Related.init s hScripts
  · intro m c hNone
    rw [List.take_nil, run_nil, Option.some.injEq] at hNone
    exact ⟨0, _, Nat.le_refl _, rfl, hNone ▸ rfl⟩
  · rintro acts n a n' hNet ⟨schedule, c, answered, hSoFar, h, hMeets⟩ hStep
    obtain ⟨c', answered', hMatched, h'⟩ := h.step hStep
    have hOld : ∀ m c'', run (Interleave.step S.system) (schedule.take m)
        (Config.init s fun i => S.requests (sess i) (scripts i)) = some c'' →
        ∃ k n, k ≤ (acts ++ [a]).length ∧
          run (Transport.step S) ((acts ++ [a]).take k)
            (Net.init s scripts farewell sess) = some n ∧
          n.shared = c''.shared := by
      intro m c'' hMoment
      obtain ⟨k, n'', hk, hRun', hSame⟩ := hMeets m c'' hMoment
      refine ⟨k, n'', ?_, ?_, hSame⟩
      · rw [List.length_append]
        omega
      · rwa [List.take_append_of_le_length hk]
    rcases hMatched with rfl | ⟨i, hNext⟩
    · exact ⟨schedule, _, answered', hSoFar, h', hOld⟩
    · have hRun' : run (Interleave.step S.system) (schedule ++ [i])
          (Config.init s fun i => S.requests (sess i) (scripts i)) =
            some c' := by
        rw [run_concat, hSoFar]
        exact hNext
      refine ⟨schedule ++ [i], c', answered', hRun', h', fun m c'' hMoment => ?_⟩
      by_cases hm : m ≤ schedule.length
      · rw [List.take_append_of_le_length hm] at hMoment
        exact hOld m c'' hMoment
      · rw [List.take_of_length_le (by
          rw [List.length_append, List.length_singleton]; omega), hRun',
          Option.some.injEq] at hMoment
        subst hMoment
        refine ⟨(acts ++ [a]).length, n', Nat.le_refl _, ?_, h'.shared⟩
        rw [List.take_length, run_concat, hNet]
        exact hStep

end GDPRuler.Verified.Transport
