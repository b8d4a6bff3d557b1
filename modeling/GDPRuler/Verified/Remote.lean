import GDPRuler.Verified.Budget
import GDPRuler.Verified.Framing
import GDPRuler.Verified.RelyGuarantee

/-!
# Operations performed by a server

The operations of a system need not reach the shared state at once.  Here some
of them are messages: a client sends one behind its size, on a connection of its
own, and waits; a session of the server reads the size and as many symbols,
changes the state it holds and sends a reply in the same way; the client reads
that and goes on with the result it stands for.  The other operations are
performed on the spot.

`Related` connects such a network with the system in which an operation is one
step: it counts as performed when the server performs it, while its client still
waits.  The clock ticks at the starts and ends of requests and whenever an
operation is performed, so the answered requests of both are the same, with
their moments.

What is asked of the exchanges (`Protocol.Sound`) is asked in the states of the
system without a network.

## Main results

* `Related.step` — a step of the network is one of the system at most;
* `exists_run` — every run of the network is one of the system;
* `Related.enabled` — who has something left to do is never stuck.
-/

namespace GDPRuler.Verified.Remote

open GDPRuler.Verified.Interleave GDPRuler.Verified.Transition
open GDPRuler.Verified.Framing

/-! ## The network -/

/-- How operations are exchanged: which are messages, how sizes are written and
how large they may be, what the server does with a message, and the result a
reply stands for. -/
structure Protocol (Req Op : Type) (Res : Op → Type) (β σ : Type) where
  header : Header β
  width_pos : 0 < header.width
  maxSize : Nat
  maxSize_lt : maxSize < header.bound
  /-- `none` for an operation that is performed on the spot. -/
  message : Req → Op → Option (List β)
  serve : List β → σ → List β × σ
  result : Req → (op : Op) → List β → Res op

/-- What is read next: a size, or a text of that size. -/
inductive Reading
  | size
  | text (size : Nat)
  deriving DecidableEq

/-- A connection, with what is on its way to either side. -/
structure Wire (β : Type) where
  toServer : List β := []
  session : Reading := .size
  toClient : List β := []
  /-- How far the client has come with the reply it waits for, if any. -/
  awaiting : Option Reading := none

structure Net (Req Op : Type) (Res : Op → Type) (ε α β σ : Type) where
  config : Config Req Op Res ε α σ
  wires : Nat → Wire β
  /-- A size was read that no buffer has. -/
  crashed : Bool

variable {Req Op : Type} {Res : Op → Type} {ε α β σ : Type}

def Net.init (s : σ) (queues : Nat → List Req) : Net Req Op Res ε α β σ :=
  { config := Config.init s queues
    wires := fun _ => {}
    crashed := false }

/-- What a read ends with. -/
inductive Received (β : Type)
  | waiting
  | refused
  | sized (size : Nat) (rest : List β)
  | whole (text rest : List β)

/-- Both sides read a size, and then wait for a text of that size. -/
def Protocol.receive (P : Protocol Req Op Res β σ) (stream : List β) :
    Reading → Received β
  | .size =>
      if stream.length < P.header.width then .waiting
      else
        let size := P.header.read (stream.take P.header.width)
        if P.maxSize < size then .refused
        else .sized size (stream.drop P.header.width)
  | .text size =>
      if stream.length < size then .waiting
      else .whole (stream.take size) (stream.drop size)

/-- The task after an operation. -/
def resume (t : Task Req Op Res ε α) {op : Op} (next : Res op → Prog Op Res ε α)
    (res : Res op) : Task Req Op Res ε α :=
  { t with prog := next res, seen := t.seen ++ [⟨op, res⟩] }

namespace Net

variable (P : Protocol Req Op Res β σ) (n : Net Req Op Res ε α β σ) (i : Nat)

/-- A step of the client in an exchange: it sends the message or reads of the
reply. -/
def converse (t : Task Req Op Res ε α) {op : Op}
    (next : Res op → Prog Op Res ε α) (message : List β) :
    Option (Net Req Op Res ε α β σ) :=
  let wire := n.wires i
  match wire.awaiting with
  | none => some { n with
      wires := Function.update n.wires i { wire with
        toServer := wire.toServer ++ frame P.header message
        awaiting := some .size } }
  | some reading =>
      match P.receive wire.toClient reading with
      | .waiting => none
      | .refused => some { n with crashed := true }
      | .sized size rest => some { n with
          wires := Function.update n.wires i { wire with
            toClient := rest, awaiting := some (.text size) } }
      | .whole reply rest => some { n with
          config := { n.config with
            clients := Function.update n.config.clients i
              ⟨(n.config.clients i).queue,
                some (resume t next (P.result t.req op reply))⟩ }
          wires := Function.update n.wires i { wire with
            toClient := rest, awaiting := none } }

/-- A step of a client. -/
def turn (S : System Req Op Res ε α σ) : Option (Net Req Op Res ε α β σ) :=
  let alone := (Interleave.step S n.config i).map fun config =>
    { n with config := config }
  match (n.config.clients i).running with
  | none => alone
  | some t =>
      match t.prog with
      | .call op next =>
          match P.message t.req op with
          | none => alone
          | some message => n.converse P i t next message
      | _ => alone

/-- A step of a session. -/
def work : Option (Net Req Op Res ε α β σ) :=
  let wire := n.wires i
  match P.receive wire.toServer wire.session with
  | .waiting => none
  | .refused => some { n with crashed := true }
  | .sized size rest => some { n with
      wires := Function.update n.wires i { wire with
        toServer := rest, session := .text size } }
  | .whole message rest =>
      let served := P.serve message n.config.shared
      some { n with
        config := { n.config with
          shared := served.2, time := n.config.time + 1 }
        wires := Function.update n.wires i { wire with
          toServer := rest
          session := .size
          toClient := wire.toClient ++ frame P.header served.1 } }

end Net

/-- Whose turn it is. -/
inductive Act
  | turn (i : Nat)
  | work (i : Nat)
  deriving DecidableEq

/-- A step of the network. -/
def step (P : Protocol Req Op Res β σ) (S : System Req Op Res ε α σ)
    (n : Net Req Op Res ε α β σ) : Act → Option (Net Req Op Res ε α β σ)
  | .turn i => if n.crashed then none else n.turn P i S
  | .work i => if n.crashed then none else n.work P i

/-! ## Reading -/

section Receive

variable (P : Protocol Req Op Res β σ)

theorem receive_nil : P.receive [] .size = .waiting :=
  if_pos P.width_pos

/-- A size that is small enough. -/
theorem receive_frame {text : List β} (hSize : text.length ≤ P.maxSize) :
    P.receive (frame P.header text) .size = .sized text.length text := by
  have hThere : ¬ (frame P.header text).length < P.header.width := by
    rw [length_frame]
    omega
  have hTake := take_width_frame P.header text []
  have hDrop := drop_width_frame P.header text []
  rw [List.append_nil] at hTake
  rw [List.append_nil, List.append_nil] at hDrop
  simp only [Protocol.receive, if_neg hThere, hTake, hDrop,
    P.header.read_write _ (Nat.lt_of_le_of_lt hSize P.maxSize_lt),
    if_neg (Nat.not_lt.mpr hSize)]

theorem receive_text (text : List β) :
    P.receive text (.text text.length) = .whole text [] := by
  simp only [Protocol.receive, Nat.lt_irrefl, if_false, List.take_length,
    List.drop_length]

end Receive

/-! ## The system behind it -/

/-- In `c` the exchange of every operation that is next gives what performing it
would, and its texts have a size. -/
def Protocol.Sound (P : Protocol Req Op Res β σ) (S : System Req Op Res ε α σ)
    (c : Config Req Op Res ε α σ) : Prop :=
  ∀ i t op next message, (c.clients i).running = some t →
    t.prog = .call op next → P.message t.req op = some message →
    message.length ≤ P.maxSize ∧
      (P.serve message c.shared).1.length ≤ P.maxSize ∧
      S.exec t.req op c.shared =
        (P.result t.req op (P.serve message c.shared).1,
          (P.serve message c.shared).2)

/-- A client that waits for the exchange of its next operation. -/
structure Asks (P : Protocol Req Op Res β σ) (t : Task Req Op Res ε α) (op : Op)
    (next : Res op → Prog Op Res ε α) (message : List β) : Prop where
  prog : t.prog = .call op next
  message : P.message t.req op = some message

/-- Where the exchange of a client is, with the client in the network and in the
system: it is ahead there once its operation is performed. -/
inductive Stage (P : Protocol Req Op Res β σ) :
    Wire β → Client Req Op Res ε α → Client Req Op Res ε α → Prop
  | idle (client : Client Req Op Res ε α) : Stage P {} client client
  | asked {queue t op next message}
      (h : Asks (ε := ε) (α := α) P t op next message) :
      Stage P ⟨frame P.header message, .size, [], some .size⟩
        ⟨queue, some t⟩ ⟨queue, some t⟩
  | read {queue t op next message}
      (h : Asks (ε := ε) (α := α) P t op next message) :
      Stage P ⟨message, .text message.length, [], some .size⟩
        ⟨queue, some t⟩ ⟨queue, some t⟩
  | replied {queue t op next message}
      (h : Asks (ε := ε) (α := α) P t op next message) {reply : List β}
      (hSize : reply.length ≤ P.maxSize) :
      Stage P ⟨[], .size, frame P.header reply, some .size⟩
        ⟨queue, some t⟩
        ⟨queue, some (resume t next (P.result t.req op reply))⟩
  | received {queue t op next message}
      (h : Asks (ε := ε) (α := α) P t op next message) (reply : List β) :
      Stage P ⟨[], .size, reply, some (.text reply.length)⟩
        ⟨queue, some t⟩
        ⟨queue, some (resume t next (P.result t.req op reply))⟩

/-- A network and the system it amounts to. -/
structure Related (P : Protocol Req Op Res β σ) (n : Net Req Op Res ε α β σ)
    (c : Config Req Op Res ε α σ) : Prop where
  shared : n.config.shared = c.shared
  done : n.config.done = c.done
  time : n.config.time = c.time
  stage : ∀ i, Stage P (n.wires i) (n.config.clients i) (c.clients i)
  alive : n.crashed = false

/-- A step depends on the client that makes it, and on what is shared. -/
theorem step_of_same {S : System Req Op Res ε α σ}
    {c₁ c₁' c₂ : Config Req Op Res ε α σ} {i : Nat}
    (hStep : Interleave.step S c₁ i = some c₁')
    (hShared : c₁.shared = c₂.shared) (hDone : c₁.done = c₂.done)
    (hTime : c₁.time = c₂.time) (hClient : c₁.clients i = c₂.clients i) :
    ∃ client, c₁'.clients = Function.update c₁.clients i client ∧
      Interleave.step S c₂ i = some
        { c₁' with clients := Function.update c₂.clients i client } := by
  rcases step_cases hStep with ⟨r, rest, hRunning, hQueue, rfl⟩ |
    ⟨t, outcome, hRunning, hProg, rfl⟩ | ⟨t, op, next, hRunning, hProg, rfl⟩
  · refine ⟨_, rfl, ?_⟩
    rw [hClient] at hRunning hQueue
    simp only [Interleave.step, hRunning, hQueue, Config.begin, hShared, hDone,
      hTime]
  · refine ⟨_, rfl, ?_⟩
    rw [hClient] at hRunning
    cases outcome <;>
      simp only [Interleave.step, hRunning, hProg, Prog.ofExcept, Config.answer,
        hShared, hDone, hTime, hClient]
  · refine ⟨_, rfl, ?_⟩
    rw [hClient] at hRunning
    simp only [Interleave.step, hRunning, hProg, Config.advance, hShared, hDone,
      hTime, hClient]

namespace Related

variable {P : Protocol Req Op Res β σ} {S : System Req Op Res ε α σ}
  {n n' : Net Req Op Res ε α β σ} {c : Config Req Op Res ε α σ} {i : Nat}

theorem init (P : Protocol Req Op Res β σ) (s : σ) (queues : Nat → List Req) :
    Related (ε := ε) (α := α) P (Net.init s queues) (Config.init s queues) :=
  { shared := rfl
    done := rfl
    time := rfl
    stage := fun _ => .idle _
    alive := rfl }

/-- The stages after a step on connection `i`. -/
theorem stages (h : Related P n c) {wire : Wire β}
    {client client' : Client Req Op Res ε α} (hStage : Stage P wire client client')
    (j : Nat) :
    Stage P (Function.update n.wires i wire j)
      (Function.update n.config.clients i client j)
      (Function.update c.clients i client' j) := by
  by_cases hj : j = i
  · subst hj
    simp only [Function.update_self]
    exact hStage
  · simp only [Function.update_of_ne hj]
    exact h.stage j

/-- A step that the system does not see. -/
theorem silent (h : Related P n c) {wire : Wire β}
    (hStage : Stage P wire (n.config.clients i) (c.clients i)) :
    Related P { n with wires := Function.update n.wires i wire } c := by
  refine { h with stage := fun j => ?_ }
  have hAll := h.stages (i := i) hStage j
  rwa [Function.update_eq_self, Function.update_eq_self] at hAll

end Related

/-! ## What a step can do -/

/-- The steps at place `i`. -/
inductive Moves (P : Protocol Req Op Res β σ) (S : System Req Op Res ε α σ)
    (n : Net Req Op Res ε α β σ) (c : Config Req Op Res ε α σ) (i : Nat) :
    Net Req Op Res ε α β σ → Prop
  /-- The client acts alone. -/
  | alone {config : Config Req Op Res ε α σ}
      (hStep : Interleave.step S n.config i = some config)
      (hWire : n.wires i = {}) (hSame : n.config.clients i = c.clients i) :
      Moves P S n c i { n with config := config }
  /-- It sends a message. -/
  | asks {queue t op next message} (hAsks : Asks P t op next message)
      (hWire : n.wires i = {}) (hHere : n.config.clients i = ⟨queue, some t⟩)
      (hThere : c.clients i = ⟨queue, some t⟩) :
      Moves P S n c i { n with
        wires := Function.update n.wires i
          ⟨frame P.header message, .size, [], some .size⟩ }
  /-- The session has read its size. -/
  | reads {queue t op next message} (hAsks : Asks P t op next message)
      (hWire : n.wires i = ⟨frame P.header message, .size, [], some .size⟩)
      (hHere : n.config.clients i = ⟨queue, some t⟩)
      (hThere : c.clients i = ⟨queue, some t⟩) :
      Moves P S n c i { n with
        wires := Function.update n.wires i
          ⟨message, .text message.length, [], some .size⟩ }
  /-- It performs the operation and replies. -/
  | performs {queue t op next message} (hAsks : Asks P t op next message)
      (hWire : n.wires i = ⟨message, .text message.length, [], some .size⟩)
      (hHere : n.config.clients i = ⟨queue, some t⟩)
      (hThere : c.clients i = ⟨queue, some t⟩) {reply : List β} {s : σ}
      (hReply : reply.length ≤ P.maxSize)
      (hExec : S.exec t.req op c.shared = (P.result t.req op reply, s)) :
      Moves P S n c i
        { n with
          config := { n.config with shared := s, time := n.config.time + 1 }
          wires := Function.update n.wires i
            ⟨[], .size, frame P.header reply, some .size⟩ }
  /-- The client has read the size of the reply. -/
  | hears {queue t op next message} (hAsks : Asks P t op next message)
      {reply : List β}
      (hWire : n.wires i = ⟨[], .size, frame P.header reply, some .size⟩)
      (hHere : n.config.clients i = ⟨queue, some t⟩)
      (hThere : c.clients i =
        ⟨queue, some (resume t next (P.result t.req op reply))⟩) :
      Moves P S n c i { n with
        wires := Function.update n.wires i
          ⟨[], .size, reply, some (.text reply.length)⟩ }
  /-- It goes on with the result. -/
  | resumes {queue t op next message} (hAsks : Asks P t op next message)
      {reply : List β}
      (hWire : n.wires i = ⟨[], .size, reply, some (.text reply.length)⟩)
      (hHere : n.config.clients i = ⟨queue, some t⟩)
      (hThere : c.clients i =
        ⟨queue, some (resume t next (P.result t.req op reply))⟩) :
      Moves P S n c i
        { n with
          config := { n.config with
            clients := Function.update n.config.clients i (c.clients i) }
          wires := Function.update n.wires i {} }

/-- A client acts alone or is in an exchange. -/
theorem turn_cases {P : Protocol Req Op Res β σ} {S : System Req Op Res ε α σ}
    {n n' : Net Req Op Res ε α β σ} {i : Nat}
    (hTurn : n.turn P i S = some n') :
    (∃ config, Interleave.step S n.config i = some config ∧
      n' = { n with config := config } ∧
      ∀ t op next message, (n.config.clients i).running = some t →
        ¬ Asks P t op next message) ∨
    ∃ t op next message, (n.config.clients i).running = some t ∧
      Asks P t op next message ∧
      n.converse P i t next message = some n' := by
  have hAlone : ((Interleave.step S n.config i).map fun config =>
      { n with config := config }) = some n' →
      ∃ config, Interleave.step S n.config i = some config ∧
        n' = { n with config := config } := by
    intro hMap
    obtain ⟨config, hStep, rfl⟩ := Option.map_eq_some_iff.mp hMap
    exact ⟨config, hStep, rfl⟩
  unfold Net.turn at hTurn
  cases hRunning : (n.config.clients i).running with
  | none =>
      simp only [hRunning] at hTurn
      obtain ⟨config, hStep, rfl⟩ := hAlone hTurn
      exact .inl ⟨config, hStep, rfl, fun t op next message hNone =>
        nomatch hNone⟩
  | some t =>
      simp only [hRunning] at hTurn
      cases hProg : t.prog with
      | call op next =>
          simp only [hProg] at hTurn
          cases hMessage : P.message t.req op with
          | none =>
              simp only [hMessage] at hTurn
              obtain ⟨config, hStep, rfl⟩ := hAlone hTurn
              refine .inl ⟨config, hStep, rfl, ?_⟩
              rintro t' op' next' message hSame ⟨hCall, hSome⟩
              obtain rfl := Option.some.inj hSame
              rw [hProg] at hCall
              cases hCall
              rw [hMessage] at hSome
              cases hSome
          | some message =>
              simp only [hMessage] at hTurn
              exact .inr ⟨t, op, next, message, rfl, ⟨hProg, hMessage⟩, hTurn⟩
      | _ =>
          simp only [hProg] at hTurn
          obtain ⟨config, hStep, rfl⟩ := hAlone hTurn
          refine .inl ⟨config, hStep, rfl, ?_⟩
          rintro t' op' next' message hSame ⟨hCall, -⟩
          obtain rfl := Option.some.inj hSame
          rw [hProg] at hCall
          cases hCall

section Steps

variable {P : Protocol Req Op Res β σ} {S : System Req Op Res ε α σ}
  {n n' : Net Req Op Res ε α β σ} {c : Config Req Op Res ε α σ} {i : Nat}

/-- A client acts alone when no exchange of it is under way, and in an exchange
it sends, reads the size of the reply or the reply. -/
theorem Related.turn (h : Related P n c) (hTurn : n.turn P i S = some n') :
    Moves P S n c i n' := by
  have hStage := h.stage i
  generalize hWire : n.wires i = wire at hStage
  generalize hHere : n.config.clients i = client at hStage
  generalize hThere : c.clients i = client' at hStage
  rcases turn_cases hTurn with ⟨config, hStep, rfl, hNone⟩ |
    ⟨t, op, next, message, hRunning, hAsks, hConverse⟩
  · rw [hHere] at hNone
    cases hStage with
    | idle client => exact .alone hStep hWire (hHere.trans hThere.symm)
    | asked hAsks => exact absurd hAsks (hNone _ _ _ _ rfl)
    | read hAsks => exact absurd hAsks (hNone _ _ _ _ rfl)
    | replied hAsks hSize => exact absurd hAsks (hNone _ _ _ _ rfl)
    | received hAsks reply => exact absurd hAsks (hNone _ _ _ _ rfl)
  · rw [hHere] at hRunning
    unfold Net.converse at hConverse
    rw [hWire] at hConverse
    cases hStage with
    | idle client =>
        obtain ⟨queue, running⟩ := client
        obtain rfl : running = some t := hRunning
        simp only [List.nil_append, Option.some.injEq] at hConverse
        subst hConverse
        exact .asks hAsks hWire hHere hThere
    | asked => simp only [receive_nil, reduceCtorEq] at hConverse
    | read => simp only [receive_nil, reduceCtorEq] at hConverse
    | replied hSame hSize =>
        obtain rfl := Option.some.inj hRunning
        simp only [receive_frame P hSize, Option.some.injEq] at hConverse
        subst hConverse
        exact .hears hSame hWire hHere hThere
    | received hSame reply =>
        obtain rfl := Option.some.inj hRunning
        have hCall := hSame.prog
        rw [hAsks.prog] at hCall
        cases hCall
        have hResumes := Moves.resumes (S := S) (c := c) hSame hWire hHere hThere
        simp only [receive_text, hHere, Option.some.injEq] at hConverse
        subst hConverse
        rwa [hThere] at hResumes

/-- A session reads the size of a message or performs its operation. -/
theorem Related.work (h : Related P n c) (hSound : P.Sound S c)
    (hWork : n.work P i = some n') : Moves P S n c i n' := by
  have hStage := h.stage i
  unfold Net.work at hWork
  generalize hWire : n.wires i = wire at hStage hWork
  generalize hHere : n.config.clients i = client at hStage
  generalize hThere : c.clients i = client' at hStage
  cases hStage with
  | idle => simp only [receive_nil, reduceCtorEq] at hWork
  | replied => simp only [receive_nil, reduceCtorEq] at hWork
  | received => simp only [receive_nil, reduceCtorEq] at hWork
  | asked hAsks =>
      obtain ⟨hSize, -⟩ := hSound i _ _ _ _ (by rw [hThere]) hAsks.prog
        hAsks.message
      simp only [receive_frame P hSize, Option.some.injEq] at hWork
      subst hWork
      exact .reads hAsks hWire hHere hThere
  | read hAsks =>
      obtain ⟨-, hReply, hExec⟩ := hSound i _ _ _ _ (by rw [hThere]) hAsks.prog
        hAsks.message
      simp only [receive_text, List.nil_append, h.shared, Option.some.injEq]
        at hWork
      subst hWork
      exact .performs hAsks hWire hHere hThere hReply hExec

/-- The place of a step. -/
def Act.place : Act → Nat
  | .turn i => i
  | .work i => i

theorem Related.moves (h : Related P n c) (hSound : P.Sound S c) {a : Act}
    (hStep : Remote.step P S n a = some n') : Moves P S n c a.place n' := by
  cases a with
  | turn i =>
      simp only [Remote.step, h.alive, Bool.false_eq_true, if_false] at hStep
      exact h.turn hStep
  | work i =>
      simp only [Remote.step, h.alive, Bool.false_eq_true, if_false] at hStep
      exact h.work hSound hStep

/-- **A step of the network** is a step of the system, or none. -/
theorem Related.step (h : Related P n c) (hMoves : Moves P S n c i n') :
    Related P n' c ∨ ∃ c', Interleave.step S c i = some c' ∧ Related P n' c' := by
  cases hMoves with
  | alone hStep hWire hSame =>
      obtain ⟨client, hClients, hNext⟩ := step_of_same hStep h.shared h.done
        h.time hSame
      refine .inr ⟨_, hNext, { h with
        shared := rfl, done := rfl, time := rfl, stage := fun j => ?_ }⟩
      have hAll := h.stages (i := i) (.idle client) j
      rw [← hWire, Function.update_eq_self] at hAll
      rwa [hClients]
  | asks hAsks hWire hHere hThere =>
      refine .inl (h.silent ?_)
      rw [hHere, hThere]
      exact .asked hAsks
  | reads hAsks hWire hHere hThere =>
      refine .inl (h.silent ?_)
      rw [hHere, hThere]
      exact .read hAsks
  | @performs queue t op next message hAsks hWire hHere hThere reply s hReply
      hExec =>
      refine .inr ⟨c.advance S i t op next, ?_, ?_⟩
      · simp only [Interleave.step, hThere, hAsks.prog]
      · refine { h with shared := ?_, time := congrArg (· + 1) h.time
                        stage := fun j => ?_ }
        · simp only [Config.advance, hExec]
        · have hReplied : Stage P ⟨[], .size, frame P.header reply, some .size⟩
              ⟨queue, some t⟩
              ⟨queue, some (resume t next (P.result t.req op reply))⟩ :=
            .replied hAsks hReply
          have hAll : Stage P _ _ (Function.update c.clients i _ j) :=
            h.stages hReplied j
          rw [← hHere, Function.update_eq_self] at hAll
          simp only [Config.advance, hExec, hThere]
          exact hAll
  | hears hAsks hWire hHere hThere =>
      refine .inl (h.silent ?_)
      rw [hHere, hThere]
      exact .received hAsks _
  | resumes hAsks hWire hHere hThere =>
      refine .inl { h with stage := fun j => ?_ }
      have hAll := h.stages (i := i) (.idle (c.clients i)) j
      rwa [Function.update_eq_self] at hAll

/-- **Nobody is stuck**: a client has nothing left to do, or it or its session
can do a step. -/
theorem Related.enabled (h : Related P n c) (hSound : P.Sound S c) (i : Nat) :
    n.config.clients i = ⟨[], none⟩ ∨
      ∃ a n', a.place = i ∧ Remote.step P S n a = some n' := by
  have hTurn : (n.turn P i S).isSome = true →
      ∃ a n', a.place = i ∧ Remote.step P S n a = some n' := by
    intro hSome
    obtain ⟨n', hTurn⟩ := Option.isSome_iff_exists.mp hSome
    refine ⟨.turn i, n', rfl, ?_⟩
    simp only [Remote.step, h.alive, Bool.false_eq_true, if_false, hTurn]
  have hWork : (n.work P i).isSome = true →
      ∃ a n', a.place = i ∧ Remote.step P S n a = some n' := by
    intro hSome
    obtain ⟨n', hWork⟩ := Option.isSome_iff_exists.mp hSome
    refine ⟨.work i, n', rfl, ?_⟩
    simp only [Remote.step, h.alive, Bool.false_eq_true, if_false, hWork]
  have hStage := h.stage i
  generalize hWire : n.wires i = wire at hStage
  generalize hHere : n.config.clients i = client at hStage
  generalize hThere : c.clients i = client' at hStage
  have hReads : ∀ {queue t op next message}, client = ⟨queue, some t⟩ →
      Asks P t op next message →
      n.turn P i S = n.converse P i t next message := by
    rintro queue t op next message rfl hAsks
    simp only [Net.turn, hHere, hAsks.prog, hAsks.message]
  cases hStage with
  | idle client =>
      obtain ⟨queue, running⟩ := client
      cases running with
      | none =>
          cases queue with
          | nil => exact .inl rfl
          | cons r rest =>
              refine .inr (hTurn ?_)
              simp only [Net.turn, Interleave.step, hHere, Option.map_some,
                Option.isSome_some]
      | some t =>
          refine .inr (hTurn ?_)
          cases hProg : t.prog with
          | call op next =>
              cases hMessage : P.message t.req op with
              | none =>
                  simp only [Net.turn, Interleave.step, hHere, hProg, hMessage,
                    Option.map_some, Option.isSome_some]
              | some message =>
                  rw [hReads rfl ⟨hProg, hMessage⟩]
                  simp only [Net.converse, hWire, Option.isSome_some]
          | _ =>
              simp only [Net.turn, Interleave.step, hHere, hProg,
                Option.map_some, Option.isSome_some]
  | asked hAsks =>
      obtain ⟨hSize, -⟩ := hSound i _ _ _ _ (by rw [hThere]) hAsks.prog
        hAsks.message
      refine .inr (hWork ?_)
      simp only [Net.work, hWire, receive_frame P hSize, Option.isSome_some]
  | read hAsks =>
      refine .inr (hWork ?_)
      simp only [Net.work, hWire, receive_text, Option.isSome_some]
  | replied hAsks hSize =>
      refine .inr (hTurn ?_)
      rw [hReads rfl hAsks]
      simp only [Net.converse, hWire, receive_frame P hSize, Option.isSome_some]
  | received hAsks reply =>
      refine .inr (hTurn ?_)
      rw [hReads rfl hAsks]
      simp only [Net.converse, hWire, receive_text, Option.isSome_some]

end Steps

/-! ## Runs -/

section Runs

variable {P : Protocol Req Op Res β σ} {S : System Req Op Res ε α σ}
  {s : σ} {queues : Nat → List Req} {acts : List Act}
  {n n' : Net Req Op Res ε α β σ}

variable (P S s queues) in
/-- The network is where a run of the system leads. -/
def Meets (n : Net Req Op Res ε α β σ) : Prop :=
  ∃ schedule c,
    run (Interleave.step S) schedule (Config.init s queues) = some c ∧
      Related P n c

/-- Clients that have nothing left to do have nothing left in the system. -/
theorem Related.finished {c : Config Req Op Res ε α σ} (h : Related P n c)
    (hFinished : n.config.Finished) : c.Finished := by
  intro i
  have hStage := h.stage i
  rw [hFinished i] at hStage
  generalize hThere : c.clients i = client at hStage
  generalize n.wires i = wire at hStage
  cases hStage
  rfl

variable (hSound : ∀ c, Reaches (Interleave.step S) (Config.init s queues) c →
    P.Sound S c)
  (hRun : run (Remote.step P S) acts (Net.init s queues) = some n)

include hSound

theorem Meets.step (h : Meets P S s queues n) {a : Act}
    (hStep : Remote.step P S n a = some n') : Meets P S s queues n' := by
  obtain ⟨schedule, c, hSoFar, h⟩ := h
  rcases h.step (h.moves (hSound c ⟨schedule, hSoFar⟩) hStep) with hSilent |
    ⟨c', hNext, h'⟩
  · exact ⟨schedule, c, hSoFar, hSilent⟩
  · refine ⟨schedule ++ [a.place], c', ?_, h'⟩
    rw [run_concat, hSoFar]
    exact hNext

include hRun

/-- **Every run of the network is one of the system**, with the same state and
the same answered requests. -/
theorem exists_run : Meets P S s queues n :=
  Reaches.invariant (fun _ _ _ h hStep => h.step hSound hStep)
    ⟨[], _, rfl, Related.init P s queues⟩ ⟨acts, hRun⟩

/-- When nothing can be done any more, everything is. -/
theorem finished_of_stuck (hStuck : ∀ a, step P S n a = none) :
    n.config.Finished := by
  obtain ⟨schedule, c, hSystem, h⟩ := exists_run hSound hRun
  intro i
  rcases h.enabled (hSound c ⟨schedule, hSystem⟩) i with hDone |
    ⟨a, n', -, hStep⟩
  · exact hDone
  · rw [hStuck a] at hStep
    cases hStep

end Runs

/-! ## Every run ends -/

/-- How many of the five steps of an exchange were taken. -/
def Wire.passed (wire : Wire β) : Nat :=
  match wire.awaiting, wire.session, wire.toServer with
  | none, _, _ => 0
  | some .size, .size, _ :: _ => 1
  | some .size, .text _, _ => 2
  | some .size, .size, [] => 3
  | some (.text _), _, _ => 4

theorem passed_frame {h : Header β} (hWidth : 0 < h.width) (message : List β) :
    Wire.passed ⟨frame h message, .size, [], some .size⟩ = 1 := by
  obtain ⟨b, rest, hCons⟩ :=
    List.exists_cons_of_ne_nil (frame_ne_nil h hWidth message)
  rw [hCons, Wire.passed]

/-- `k` is enough for what client `i` has left to do, if its requests perform at
most `most` operations. -/
def Left (S : System Req Op Res ε α σ) (most : Nat) (n : Net Req Op Res ε α β σ)
    (i k : Nat) : Prop :=
  let client := n.config.clients i
  let queued := client.queue.length * (5 * most + 2)
  (∀ r ∈ client.queue, (S.body r).Within most) ∧
    match client.running with
    | none => queued ≤ k
    | some t => ∃ m, t.prog.Within m ∧
        queued + (5 * m + 1) ≤ k + (n.wires i).passed

section Ends

variable {P : Protocol Req Op Res β σ} {S : System Req Op Res ε α σ}
  {n n' : Net Req Op Res ε α β σ} {c : Config Req Op Res ε α σ} {i k most : Nat}

theorem left_some {queue : List Req} {t : Task Req Op Res ε α}
    (hHere : n.config.clients i = ⟨queue, some t⟩) :
    Left S most n i k ↔ (∀ r ∈ queue, (S.body r).Within most) ∧
      ∃ m, t.prog.Within m ∧
        queue.length * (5 * most + 2) + (5 * m + 1) ≤
          k + (n.wires i).passed := by
  simp only [Left, hHere]

/-- A step leaves the other places as they were. -/
theorem Moves.others (hMoves : Moves P S n c i n') {j : Nat} (hj : j ≠ i) :
    n'.config.clients j = n.config.clients j ∧ n'.wires j = n.wires j := by
  cases hMoves with
  | alone hStep hWire hSame => exact ⟨clients_of_ne hStep hj, rfl⟩
  | asks => exact ⟨rfl, Function.update_of_ne hj _ _⟩
  | reads => exact ⟨rfl, Function.update_of_ne hj _ _⟩
  | performs => exact ⟨rfl, Function.update_of_ne hj _ _⟩
  | hears => exact ⟨rfl, Function.update_of_ne hj _ _⟩
  | resumes =>
      exact ⟨Function.update_of_ne hj _ _, Function.update_of_ne hj _ _⟩

/-- A step of an exchange, of which `p` were taken. -/
theorem Left.exchange (p : Nat) (hMore : p < 4) {queue : List Req}
    {t : Task Req Op Res ε α} {op : Op} {next : Res op → Prog Op Res ε α}
    {message : List β} {wire wire' : Wire β} (h : Left S most n i k)
    (hAsks : Asks P t op next message)
    (hHere : n.config.clients i = ⟨queue, some t⟩)
    (hHere' : n'.config.clients i = ⟨queue, some t⟩)
    (hWire : n.wires i = wire) (hWire' : n'.wires i = wire')
    (hOld : wire.passed = p) (hNew : wire'.passed = p + 1) :
    ∃ k' < k, Left S most n' i k' := by
  obtain ⟨hQueue, m, hWithin, hEnough⟩ := (left_some hHere).mp h
  have hCall := hWithin
  rw [hAsks.prog] at hCall
  obtain ⟨r, rfl, -⟩ := hCall.next
  rw [hWire, hOld] at hEnough
  refine ⟨k - 1, by omega,
    (left_some hHere').mpr ⟨hQueue, r + 1, hWithin, ?_⟩⟩
  rw [hWire', hNew]
  omega

/-- Every step is paid for by its client. -/
theorem Moves.pays (hMoves : Moves P S n c i n') (h : Left S most n i k) :
    ∃ k' < k, Left S most n' i k' := by
  cases hMoves with
  | alone hStep hWire hSame =>
      have hNone : (n.wires i).passed = 0 := by
        rw [hWire]
        rfl
      rcases step_cases hStep with ⟨r, rest, hRunning, hQueue, rfl⟩ |
        ⟨t, outcome, hRunning, hProg, rfl⟩ |
        ⟨t, op, next, hRunning, hProg, rfl⟩
      · simp only [Left, hRunning, hQueue, List.forall_mem_cons,
          List.length_cons, Nat.add_mul, Nat.one_mul] at h
        obtain ⟨⟨hBody, hRest⟩, hEnough⟩ := h
        refine ⟨k - 1, by omega, ?_⟩
        simp only [Left, Config.begin, Function.update_self]
        exact ⟨hRest, most, hBody, by omega⟩
      · simp only [Left, hRunning] at h
        obtain ⟨hQueue, m, -, hEnough⟩ := h
        refine ⟨k - 1, by omega, ?_⟩
        simp only [Left, Config.answer, Function.update_self]
        exact ⟨hQueue, by omega⟩
      · simp only [Left, hRunning] at h
        obtain ⟨hQueue, m, hWithin, hEnough⟩ := h
        rw [hProg] at hWithin
        obtain ⟨r, rfl, hNext⟩ := hWithin.next
        refine ⟨k - 1, by omega, ?_⟩
        simp only [Left, Config.advance, Function.update_self]
        exact ⟨hQueue, r, hNext _, by omega⟩
  | asks hAsks hWire hHere hThere =>
      exact h.exchange 0 (by decide) hAsks hHere hHere hWire
        (Function.update_self i _ _) rfl (passed_frame P.width_pos _)
  | reads hAsks hWire hHere hThere =>
      exact h.exchange 1 (by decide) hAsks hHere hHere hWire
        (Function.update_self i _ _) (passed_frame P.width_pos _) rfl
  | performs hAsks hWire hHere hThere hReply hExec =>
      exact h.exchange 2 (by decide) hAsks hHere hHere hWire
        (Function.update_self i _ _) rfl rfl
  | hears hAsks hWire hHere hThere =>
      exact h.exchange 3 (by decide) hAsks hHere hHere hWire
        (Function.update_self i _ _) rfl rfl
  | resumes hAsks hWire hHere hThere =>
      obtain ⟨hQueue, m, hWithin, hEnough⟩ := (left_some hHere).mp h
      rw [hAsks.prog] at hWithin
      obtain ⟨r, rfl, hNext⟩ := hWithin.next
      simp only [hWire, Wire.passed] at hEnough
      refine ⟨k - 1, by omega, ?_⟩
      simp only [Left, Function.update_self, hThere, resume, Wire.passed]
      exact ⟨hQueue, r, hNext _, by omega⟩

/-- **Every run ends**, when requests perform a bounded number of operations. -/
theorem length_le_of_run {s : σ} {queues : Nat → List Req}
    (hSound : ∀ c, Reaches (Interleave.step S) (Config.init s queues) c →
      P.Sound S c)
    (hBodies : ∀ i, ∀ r ∈ queues i, (S.body r).Within most) {acts : List Act}
    (hRun : run (step P S) acts (Net.init s queues) = some n)
    {clients : Nat} (hHere : ∀ a ∈ acts, a.place < clients) :
    acts.length ≤ ∑ i ∈ Finset.range clients,
      (queues i).length * (5 * most + 2) := by
  refine length_le_of_pays Act.place (Meets P S s queues) (Left S most) ?_
    ⟨[], _, rfl, Related.init P s queues⟩
    (fun i => ⟨hBodies i, Nat.le_refl _⟩) hRun hHere
  intro n a n' hMeets hStep
  refine ⟨hMeets.step hSound hStep, ?_⟩
  obtain ⟨schedule, c, hSoFar, h⟩ := hMeets
  have hMoves := h.moves (hSound c ⟨schedule, hSoFar⟩) hStep
  refine ⟨fun i k hi hLeft => ?_, fun k hLeft => hMoves.pays hLeft⟩
  obtain ⟨hClients, hWires⟩ := hMoves.others hi
  simpa only [Left, hClients, hWires] using hLeft

end Ends

end GDPRuler.Verified.Remote
