import LibMonetra.LifeInvariant
import LibMonetra.Traffic

/-!
# A server behind the connection

The library together with a server that answers every request frame at most once, in any order and
with any delay, and echoes the id that the frame carries. What the two have sent and not yet taken
belongs to one connection and is lost with it. A request counts as received as soon as it is in
`outbuf`, which only gives the server more to choose from.
-/

namespace LibMonetra

open Foundation

/-- A request frame on the wire, with the transaction it was sent for. -/
structure Request where
  trans : Ptr
  frame : Bytes
  deriving DecidableEq, Repr

/-- The id of a request as the server reads it: everything up to the field separator. -/
def Request.id (request : Request) : Bytes := request.frame.tail.takeWhile (· ≠ fs)

/-- An answer of the server. -/
structure Answer where
  request : Request
  payload : Bytes
  deriving DecidableEq, Repr

/-- The message of an answer echoes the id of its request. -/
def Answer.msg (answer : Answer) : Bytes := answer.request.id ++ fs :: answer.payload

/-- The requests in a record, in order. -/
def requestsOf (trace : List Obs) : List Request :=
  trace.filterMap fun o => match o with
    | .framed p _ _ frame => some ⟨p, frame⟩
    | _ => none

/-- The transaction that the record goes on to complete, by an answer whose message has just been
taken. -/
def completedNext : List Obs → Answer → List (Ptr × Answer)
  | .answered p _ _ :: _, answer => [(p, answer)]
  | _, _ => []

/-- Which transactions a record completes by which of the answers that the library takes, oldest
first. -/
def completions : List Obs → List Answer → List (Ptr × Answer)
  | .consumed _ :: rest, answer :: answers => completedNext rest answer ++ completions rest answers
  | _ :: rest, answers => completions rest answers
  | [], _ => []

/-- The library and its server: the requests that are not answered yet, the answers that the library
has not taken yet, oldest first, and their bytes that it has not read yet. The last field is a
record. -/
structure Net where
  sys : Sys
  requests : List Request
  answers : List Answer
  stream : Bytes
  completed : List (Ptr × Answer)

/-- What can happen next: an action of the library other than a read, an answer of the server, or a
read of some of the bytes that have come in. -/
inductive NetAction
  | library (a : Action)
  | answer (i : ℕ) (payload : Bytes)
  | read (n : ℕ)

/-- The library goes on to a state: it may have sent requests and taken answers, or lost the
connection with everything that was under way. -/
def Net.goOn (net : Net) (s : Sys) : Net :=
  let new := s.conn.trace.drop net.sys.conn.trace.length
  let completed := net.completed ++ completions new net.answers
  if s.conn.io.isNone then ⟨s, [], [], [], completed⟩
  else ⟨s, net.requests ++ requestsOf new, net.answers.drop (consumedOf new).length, net.stream, completed⟩

variable (lib : Mstdlib)

/-- One action, if it is enabled. The payload of an answer does not contain the end of a frame. -/
def netStep (net : Net) : NetAction → Option Net
  | .library a => if a.chunk = [] then (sysStep lib net.sys a).map net.goOn else none
  | .answer i payload =>
    match net.requests[i]? with
    | none => none
    | some request =>
      if etx ∈ payload then none
      else some { net with
        requests := net.requests.eraseIdx i
        answers := net.answers ++ [⟨request, payload⟩]
        stream := net.stream ++ frameOf (Answer.msg ⟨request, payload⟩) }
  | .read n =>
    (sysStep lib net.sys (.event (.read (net.stream.take n)))).map
      ({ net with stream := net.stream.drop n } : Net).goOn

/-- The library and its server, started with nothing under way. -/
def networked : System Net NetAction where
  init net := ∃ s, (monetra lib).init s ∧ net = ⟨s, [], [], [], []⟩
  step := netStep lib

/-- The ids under way: of requests that are not answered, and of answers that are not taken. -/
def Net.underWay (net : Net) : List Bytes :=
  net.requests.map Request.id ++ net.answers.map fun answer => answer.request.id

/-- Whether an action draws an id that is still under way. -/
def NetAction.redraws (net : Net) : NetAction → Bool
  | .library a => (a.drawn net.sys.conn).any fun id => decimal id ∈ net.underWay
  | _ => false

end LibMonetra
