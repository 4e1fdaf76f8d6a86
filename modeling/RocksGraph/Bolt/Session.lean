import RocksGraph.Foundation.Procedure
import RocksGraph.Foundation.Transition
import RocksGraph.Storage.Value

/-! The session of a Bolt connection (`bolt_session.h`, `bolt_handler.cc`).

The messages of a session are processed one after the other on its strand, while
the connection goes on reading: a message that arrives waits in the queue, and a
RESET raises an interrupt at once, also in the middle of another message. The
transactions, cursors and the graph manager are outside; what a call of theirs
does, and what arrives while it runs, is given with the message. -/

set_option autoImplicit false

namespace RocksGraph.Bolt

open Foundation Storage

/-- `common::ErrorCode`, with the codes that the session does not look at under
their names. -/
inductive ErrorCode where
  | unknownError
  | noSuchGraph
  | inputError
  | outOfRange
  | unimplemented
  | internalError
  | notLeader
  | raftUnavailable
  | writeInReadOnlyTransaction
  | other (name : String)
  deriving DecidableEq, Repr

def ErrorCode.name : ErrorCode → String
  | .unknownError => "UnknownError"
  | .noSuchGraph => "NoSuchGraph"
  | .inputError => "InputError"
  | .outOfRange => "OutOfRange"
  | .unimplemented => "Unimplemented"
  | .internalError => "InternalError"
  | .notLeader => "NotLeader"
  | .raftUnavailable => "RaftUnavailable"
  | .writeInReadOnlyTransaction => "WriteInReadOnlyTransaction"
  | .other name => name

/-- An exception; one without a code of its own counts as `unknownError`. -/
structure Failure where
  code : ErrorCode
  message : String
  deriving DecidableEq, Repr

/-- A field of a message (`std::any`). Of bytes, points and times only the type is read. -/
inductive Any where
  | null
  | bool (value : Bool)
  | int (value : Int)
  | double (bits : BitVec 64)
  | string (value : String)
  | list (items : List Any)
  | map (entries : List (String × Any))
  | other (type : String)

/-- The names that GCC gives to the types. -/
def Any.typeName : Any → String
  | .null => "v"
  | .bool _ => "b"
  | .int _ => "l"
  | .double _ => "d"
  | .string _ => "NSt7__cxx1112basic_stringIcSt11char_traitsIcESaIcEEE"
  | .list _ => "St6vectorISt3anySaIS0_EE"
  | .map _ => "St13unordered_mapINSt7__cxx1112basic_stringIcSt11char_traitsIcESaIcEEE" ++
      "St3anySt4hashIS5_ESt8equal_toIS5_ESaISt4pairIKS5_S6_EEE"
  | .other type => type

def Any.isString : Any → Bool
  | .string _ => true
  | _ => false

def Any.isMap : Any → Bool
  | .map _ => true
  | _ => false

def Any.isNull : Any → Bool
  | .null => true
  | _ => false

abbrev Metadata := List (String × Any)

inductive BoltMsg where
  | reset
  | run
  | discardN
  | pullN
  | begin
  | commit
  | rollback
  | route
  deriving DecidableEq, Repr

def BoltMsg.toString : BoltMsg → String
  | .reset => "BoltMsg Reset"
  | .run => "BoltMsg Run"
  | .discardN => "BoltMsg DiscardN"
  | .pullN => "BoltMsg PullN"
  | .begin => "BoltMsg Begin"
  | .commit => "BoltMsg Commit"
  | .rollback => "BoltMsg Rollback"
  | .route => "BoltMsg Route"

def isExplicitTransactionRequest (type : BoltMsg) : Bool :=
  type == .begin || type == .commit || type == .rollback

def isSessionRequest (type : BoltMsg) : Bool :=
  type == .run || type == .pullN || type == .discardN || type == .route || isExplicitTransactionRequest type

structure BoltMsgDetail where
  type : BoltMsg
  fields : List Any

/-- What the server sends. All but a record are the summary of a request. -/
inductive Response where
  | record (fields : List Any)
  | success (metadata : Metadata)
  | failure (code message : String)
  | ignored

def Response.isRecord : Response → Bool
  | .record _ => true
  | _ => false

def Response.isFailure : Response → Bool
  | .failure _ _ => true
  | _ => false

structure Arrivals where
  messages : List BoltMsgDetail
  closes : Bool

/-- A call of an outside component: what it gives or throws, and what arrives
while it runs. -/
structure Call (Value : Type) where
  meanwhile : Arrivals
  result : Except Failure Value

abbrev Row := List Value

/-- The rows a cursor will give, each with its call of `Next`, and the call after
the last one. -/
structure QueryResultCursor where
  columns : List String
  rows : List (Call Row)
  finish : Call Unit

structure RaftStatus where
  isLeader : Bool
  lead : Nat
  id : Nat
  term : Nat
  deriving DecidableEq, Repr

/-- The calls of one message. A graph without raft has no status. -/
structure Outcomes where
  start : Arrivals
  openGraph : Call Unit
  raftStatus : Call (Option RaftStatus)
  beginTransaction : Call Unit
  execute : Call QueryResultCursor
  commit : Call Unit
  rollback : Arrivals
  now : Arrivals
  route : Call Metadata

/-- What the session does to transactions, named by numbers, and to the rows of
their cursors. The queries of the system database have no transaction. -/
inductive Effect where
  | begin (transaction : Nat) (explicit : Bool)
  | next (transaction : Option Nat) (row : Option Row)
  | deliver (transaction : Option Nat) (row : Row)
  | discard (transaction : Option Nat) (row : Row)
  | commit (transaction : Nat)

structure Codec where
  convertParameter : Any → Except Failure Value
  convertRow : Row → Except Failure (List Any)
  size : Response → Nat

inductive SessionState where
  | ready
  | streaming
  | txReady
  | txStreaming
  | failed
  | defunct
  deriving DecidableEq, Repr

structure ActiveBoltQuery where
  graphName : String
  cypher : String
  transaction : Option Nat
  result : QueryResultCursor
  bufferedRow : Option Row

structure ActiveBoltTransaction where
  graphName : String
  readOnly : Bool
  raftTerm : Option Nat
  hasGraph : Bool
  transaction : Option Nat
  queries : List (Int × ActiveBoltQuery)
  nextQueryId : Int

/-- `ps` holds what is packed and not sent; `cancelled` is the state of the
cancellation token. -/
structure BoltSession where
  activeQuery : Option ActiveBoltQuery
  activeTransaction : Option ActiveBoltTransaction
  cancelled : Bool
  ps : List Response
  state : SessionState
  remainingInterrupts : Nat
  routingEnabled : Bool

namespace BoltSession

variable (session : BoltSession)

def requestInterrupt : BoltSession :=
  { session with remainingInterrupts := session.remainingInterrupts + 1, cancelled := true }

def hasInterrupt : Bool := session.remainingInterrupts ≠ 0

def consumeInterrupt : BoltSession × Bool :=
  match session.remainingInterrupts with
  | 0 => (session, true)
  | left + 1 => ({ session with remainingInterrupts := left }, left = 0)

end BoltSession

/-- The session, its connection and strand. `received` and `posted` are all that
came and went on the connection, `closing` says that its end was asked for. -/
structure Work where
  session : BoltSession
  minorVersion : Nat
  closed : Bool
  closing : Bool
  received : List BoltMsgDetail
  posted : List Response
  queue : List BoltMsgDetail
  nextTransaction : Nat
  effects : List Effect

namespace Work

variable (work : Work)

def receive (message : BoltMsgDetail) : Work :=
  { work with
    session := if message.type = .reset then work.session.requestInterrupt else work.session
    received := work.received ++ [message]
    queue := work.queue ++ [message] }

def close : Work :=
  { work with closed := true, session := work.session.requestInterrupt }

def arrive (arrivals : Arrivals) : Work :=
  let work := arrivals.messages.foldl receive work
  if arrivals.closes then work.close else work

def postResponse (responses : List Response) : Work :=
  if work.closed then work else { work with posted := work.posted ++ responses }

end Work

abbrev Handler := Procedure Work Failure

def arrive (arrivals : Arrivals) : Handler Unit := modify fun work => work.arrive arrivals

def perform {Value : Type} (call : Call Value) : Handler Value := do
  arrive call.meanwhile
  match call.result with
  | .ok value => return value
  | .error failure => throw failure

def require {Value : Type} (result : Except Failure Value) : Handler Value :=
  match result with
  | .ok value => return value
  | .error failure => throw failure

def emit (effect : Effect) : Handler Unit := modify fun work => { work with effects := work.effects ++ [effect] }

def post (response : Response) : Handler Unit := modify fun work => work.postResponse [response]

def setSession (change : BoltSession → BoltSession) : Handler Unit :=
  modify fun work => { work with session := change work.session }

end RocksGraph.Bolt
