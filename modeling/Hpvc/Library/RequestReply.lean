import Mathlib.Logic.Function.Basic

/-! Request sockets connected to reply sockets. A client sends a request and then waits for its
reply; a server takes one request of any client, and owes that client a reply before it can take
the next one. -/
namespace RequestReply

/-- What is on the way for a client: nothing, a request the server has not taken, nothing while the
server owes the reply, or the reply. -/
inductive Link (S M : Type) where
  | idle
  | asked (server : S) (request : M)
  | received
  | answered (reply : M)

structure Sockets (S C M : Type) where
  links : C → Link S M
  owed : S → Option C

variable {S C M : Type}

def Sockets.fresh : Sockets S C M := ⟨fun _ => .idle, fun _ => none⟩

variable {s next : Sockets S C M} {client : C} {server : S} {request reply : M}

section Client

variable [DecidableEq C]

/-- A client sends. -/
def Sockets.ask (s : Sockets S C M) (client : C) (server : S) (request : M) : Option (Sockets S C M) :=
  match s.links client with
  | .idle => some { s with links := Function.update s.links client (.asked server request) }
  | _ => none

/-- A client takes its reply. -/
def Sockets.collect (s : Sockets S C M) (client : C) : Option (M × Sockets S C M) :=
  match s.links client with
  | .answered reply => some (reply, { s with links := Function.update s.links client .idle })
  | _ => none

theorem Sockets.ask_some : s.ask client server request = some next ↔
    s.links client = .idle ∧
      next = { s with links := Function.update s.links client (.asked server request) } := by
  unfold ask
  cases s.links client <;> simp [eq_comm]

theorem Sockets.collect_some : s.collect client = some (reply, next) ↔
    s.links client = .answered reply ∧
      next = { s with links := Function.update s.links client .idle } := by
  unfold collect
  cases s.links client <;> simp [eq_comm]

/-- A reply that is taken, and the next request. -/
theorem Sockets.collect_ask (taken : s.collect client = some (reply, next)) :
    next.ask client server request =
      some { s with links := Function.update s.links client (.asked server request) } := by
  obtain ⟨_, rfl⟩ := collect_some.mp taken
  refine ask_some.mpr ⟨Function.update_self .., ?_⟩
  simp only [Function.update_idem]

end Client

section Server

variable [DecidableEq S] [DecidableEq C]

/-- A server takes the request of a client. -/
def Sockets.receive (s : Sockets S C M) (server : S) (client : C) : Option (M × Sockets S C M) :=
  match s.owed server, s.links client with
  | none, .asked addressee request =>
    if addressee = server then
      some (request, ⟨Function.update s.links client .received, Function.update s.owed server (some client)⟩)
    else none
  | _, _ => none

/-- A server replies, to the client whose request it took. -/
def Sockets.answer (s : Sockets S C M) (server : S) (reply : M) : Option (Sockets S C M) :=
  (s.owed server).map fun client =>
    ⟨Function.update s.links client (.answered reply), Function.update s.owed server none⟩

theorem Sockets.receive_some : s.receive server client = some (request, next) ↔
    s.owed server = none ∧ s.links client = .asked server request ∧
      next = ⟨Function.update s.links client .received, Function.update s.owed server (some client)⟩ := by
  unfold receive
  cases s.owed server with
  | some owed => simp
  | none =>
    cases s.links client with
    | asked addressee message =>
      by_cases same : addressee = server
      · simp [same,eq_comm]
      · simp [same]
    | _ => simp

/-- A request that is answered as soon as it is taken. -/
theorem Sockets.receive_answer (taken : s.receive server client = some (request, next)) :
    next.answer server reply =
      some { s with links := Function.update s.links client (.answered reply) } := by
  obtain ⟨free, _, rfl⟩ := receive_some.mp taken
  simp only [answer,Function.update_self,Option.map_some,Function.update_idem,← free,
    Function.update_eq_self]

end Server

end RequestReply
