import RocksGraph.Bolt.Session

/-! The handlers of the session's messages (`bolt_handler.cc`). -/

set_option autoImplicit false

namespace RocksGraph.Bolt

open Foundation Storage

def defaultDatabaseName : String := "default"

def systemDatabaseName : String := "system"

def flushSessionBuffer : Handler Unit := modify fun work =>
  let sent := if work.session.ps.isEmpty then work else work.postResponse work.session.ps
  { sent with session := { sent.session with ps := [] } }

variable (outcomes : Outcomes)

def abortSession : Handler Unit := do
  arrive outcomes.rollback
  setSession fun session => { session with activeQuery := none, activeTransaction := none, ps := [] }

def postSuccess : Handler Unit := post (.success [])

def postIgnored : Handler Unit := post .ignored

def boltCode : ErrorCode → String
  | .notLeader => "Neo.ClientError.Cluster.NotALeader"
  | .raftUnavailable => "Neo.TransientError.General.DatabaseUnavailable"
  | .noSuchGraph => "Neo.ClientError.Database.DatabaseNotFound"
  | .writeInReadOnlyTransaction => "Neo.ClientError.Statement.AccessMode"
  | code => code.name

def postFailure (failure : Failure) : Handler Unit := post (.failure (boltCode failure.code) failure.message)

/-- A request is not gone on with once the connection is closed or the session is
interrupted. -/
def ignoreInterruptedOrClosedRequest : Handler Bool := do
  let work ← get
  if work.closed then return true
  else if work.session.hasInterrupt then do
    postIgnored
    return true
  else return false

def failSession (failure : Failure) : Handler Unit := do
  abortSession outcomes
  let ignored ← ignoreInterruptedOrClosedRequest
  if ignored then return ()
  else do
    postFailure failure
    setSession fun session => { session with state := .failed }

def closeProtocolError : Handler Unit := do
  abortSession outcomes
  modify fun work => { work with session := { work.session with state := .defunct }, closing := true }

def processRecoverableState (type : BoltMsg) : Handler Unit :=
  if isSessionRequest type then postIgnored else closeProtocolError outcomes

def failUnsupportedRequest (feature : String) : Handler Unit :=
  failSession outcomes
    ⟨.unimplemented, "The " ++ feature ++ " feature is not currently supported for Bolt connections."⟩

/-- What the routing table is and why it may fail is outside of the session. -/
def processRoute : Handler Unit :=
  tryCatch (do
    let table ← perform outcomes.route
    post (.success table))
    (failSession outcomes)

structure TransactionMetadata where
  graph : String
  readOnly : Bool
  deriving DecidableEq, Repr

/-- The `bookmarks` of the metadata: a list of strings, which has to be empty. -/
def checkBookmarks : Option Any → Except Failure Unit
  | none => .ok ()
  | some (.list bookmarks) => do
    forM bookmarks fun bookmark => check bookmark.isString ⟨.inputError, "bookmarks should contain strings"⟩
    check bookmarks.isEmpty ⟨.unimplemented, "Bolt bookmarks are not supported"⟩
  | some _ => .error ⟨.inputError, "bookmarks metadata should be a list"⟩

def checkTimeout : Option Any → Except Failure Unit
  | none => .ok ()
  | some (.int timeout) => do
    check (timeout ≥ 0) ⟨.inputError, "tx_timeout metadata should be a non-negative integer"⟩
    check (timeout = 0) ⟨.unimplemented, "Bolt transaction timeouts are not supported"⟩
  | some _ => .error ⟨.inputError, "tx_timeout metadata should be a non-negative integer"⟩

def parseTransactionMetadata (extra : Metadata) (defaultGraph : String) (defaultReadOnly : Bool) :
    Except Failure TransactionMetadata := do
  let graph ← match extra.lookup "db" with
    | none => .ok defaultGraph
    | some (.string db) => .ok (if db = "" then defaultGraph else db)
    | some _ => .error ⟨.inputError, "db metadata should be a string"⟩
  let readOnly ← match extra.lookup "mode" with
    | none => .ok defaultReadOnly
    | some (.string "r") => .ok true
    | some (.string "w") => .ok false
    | some _ => .error ⟨.inputError, "mode metadata should be 'r' or 'w'"⟩
  checkBookmarks (extra.lookup "bookmarks")
  check ((extra.lookup "imp_user").all Any.isNull)
    ⟨.unimplemented, "Bolt user impersonation is not supported"⟩
  checkTimeout (extra.lookup "tx_timeout")
  check ((extra.lookup "tx_metadata").all Any.isMap)
    ⟨.inputError, "tx_metadata metadata should be a map"⟩
  return ⟨graph, readOnly⟩

def checkGraphLeader (status : Option RaftStatus) (graph : String) (readOnly : Bool)
    (transactionTerm : Option Nat) : Except Failure (Option Nat) :=
  match status with
  | none => .ok none
  | some status => do
    let code := if readOnly then ErrorCode.raftUnavailable else .notLeader
    check (status.isLeader ∧ status.lead = status.id)
      ⟨code, "this node is not the leader for graph [" ++ graph ++ "]"⟩
    check (∀ term ∈ transactionTerm, term = status.term)
      ⟨code, "leadership changed during transaction for graph [" ++ graph ++ "]"⟩
    return some status.term

def checkTransactionLeader (transaction : ActiveBoltTransaction) : Handler Unit :=
  if transaction.hasGraph then do
    let status ← perform outcomes.raftStatus
    let _ ← require (checkGraphLeader status transaction.graphName transaction.readOnly transaction.raftTerm)
    return ()
  else return ()

def beginTransaction (outcomes : Outcomes) (explicit : Bool) : Handler Nat := do
  perform outcomes.beginTransaction
  modifyGet fun work => (work.nextTransaction, { work with
    nextTransaction := work.nextTransaction + 1
    effects := work.effects ++ [.begin work.nextTransaction explicit] })

def beginFields : List Any → Except Failure Metadata
  | [.map extra] => .ok extra
  | [_] => .error ⟨.inputError, "BEGIN metadata should be a map"⟩
  | _ => .error ⟨.inputError, "BEGIN requires one metadata map"⟩

/-- The transaction that BEGIN opens; that of the system database has no graph. -/
def openTransaction (metadata : TransactionMetadata) : Handler ActiveBoltTransaction :=
  if metadata.graph ≠ systemDatabaseName then do
    perform outcomes.openGraph
    let status ← perform outcomes.raftStatus
    let term ← require (checkGraphLeader status metadata.graph metadata.readOnly none)
    let transaction ← beginTransaction outcomes true
    return ⟨metadata.graph, metadata.readOnly, term, true, some transaction, [], 0⟩
  else return ⟨metadata.graph, metadata.readOnly, none, false, none, [], 0⟩

def processBegin (fields : List Any) : Handler Unit :=
  tryCatch (do
    let extra ← require (beginFields fields)
    let metadata ← require (parseTransactionMetadata extra defaultDatabaseName false)
    let transaction ← openTransaction outcomes metadata
    let ignored ← ignoreInterruptedOrClosedRequest
    if ignored then return ()
    else do
      setSession fun session => { session with activeTransaction := some transaction, state := .txReady }
      postSuccess)
    (failSession outcomes)

def commitTransaction (transaction : ActiveBoltTransaction) : Handler Unit := do
  require (check transaction.queries.isEmpty
    ⟨.internalError, "cannot commit a Bolt transaction with open cursors"⟩)
  match transaction.transaction with
  | some transaction => do
    emit (.commit transaction)
    perform outcomes.commit
  | none => return ()

def endTransaction (type : BoltMsg) (transaction : ActiveBoltTransaction) : Handler Unit :=
  if type = .commit then do
    checkTransactionLeader outcomes transaction
    commitTransaction outcomes transaction
  else arrive outcomes.rollback

def processCommitOrRollback (type : BoltMsg) (fields : List Any) : Handler Unit :=
  tryCatch (do
    require (check fields.isEmpty ⟨.inputError, type.toString ++ " takes no fields"⟩)
    arrive outcomes.start
    let work ← get
    match work.session.activeTransaction with
    | none => throw ⟨.internalError, "Bolt transaction state requires an active transaction"⟩
    | some transaction => do
      let ignored ← ignoreInterruptedOrClosedRequest
      if ignored then abortSession outcomes
      else do
        endTransaction outcomes type transaction
        setSession fun session => { session with activeTransaction := none, state := .ready }
        postSuccess)
    (failSession outcomes)

/-- How many rows are asked for, `none` for all, and of which result. -/
structure PullOrDiscardMetadata where
  n : Option Nat
  qid : Int
  deriving DecidableEq, Repr

def extractPullOrDiscardMetadata (type : BoltMsg) (fields : List Any) :
    Except Failure PullOrDiscardMetadata := do
  let metadata ← match fields with
    | [.map metadata] => .ok metadata
    | [_] => .error ⟨.inputError, type.toString ++ " metadata should be a map"⟩
    | _ => .error ⟨.inputError,
        type.toString ++ " msg fields size error, size: " ++ fields.length.repr⟩
  let n ← match metadata.lookup "n" with
    | none => .error ⟨.inputError, type.toString ++ " metadata should contain n"⟩
    | some (.int n) => .ok n
    | some _ => .error ⟨.inputError, type.toString ++ " n should be an integer"⟩
  check (n = -1 ∨ n > 0) ⟨.inputError, type.toString ++ " n should be -1 or a positive integer"⟩
  let qid ← match metadata.lookup "qid" with
    | none => .ok (-1)
    | some (.int qid) =>
      if qid ≥ -1 then .ok qid
      else .error ⟨.inputError, type.toString ++ " qid should be -1 or a non-negative integer"⟩
    | some _ => .error ⟨.inputError, type.toString ++ " qid should be -1 or a non-negative integer"⟩
  return ⟨if n < 0 then none else some n.toNat, qid⟩

variable (codec : Codec)

def passRow (type : BoltMsg) (transaction : Option Nat) (row : Row) : Handler Unit :=
  if type = .pullN then do
    let record ← require (codec.convertRow row)
    emit (.deliver transaction row)
    setSession fun session => { session with ps := session.ps ++ [.record record] }
    let work ← get
    if (work.session.ps.map codec.size).sum > 1024 then flushSessionBuffer else return ()
  else emit (.discard transaction row)

/-- `Next` of a cursor: its next row, and the cursor behind it. -/
def nextRow (transaction : Option Nat) (cursor : QueryResultCursor) :
    Handler (Option Row × QueryResultCursor) :=
  match cursor.rows with
  | [] => do
    perform cursor.finish
    emit (.next transaction none)
    return (none, cursor)
  | call :: rows => do
    let row ← perform call
    emit (.next transaction (some row))
    return (some row, { cursor with rows })

/-- The loop of `ProcessPullOrDiscard` behind the buffered row. It ends when
nothing more is asked for, and then says so, or with the cursor's last row; an
interrupted request ends without a result. -/
def takeRows (codec : Codec) (outcomes : Outcomes) (type : BoltMsg) (transaction : Option Nat)
    (columns : List String) (finish : Call Unit) :
    List (Call Row) → Option Nat → Handler (Option (QueryResultCursor × Bool))
  | [], remaining =>
    if remaining = some 0 then return some (⟨columns, [], finish⟩, true)
    else do
      let ignored ← ignoreInterruptedOrClosedRequest
      if ignored then do
        abortSession outcomes
        return none
      else do
        let result ← nextRow transaction ⟨columns, [], finish⟩
        return some (result.2, false)
  | call :: rows, remaining =>
    if remaining = some 0 then return some (⟨columns, call :: rows, finish⟩, true)
    else do
      let ignored ← ignoreInterruptedOrClosedRequest
      if ignored then do
        abortSession outcomes
        return none
      else do
        let row ← perform call
        emit (.next transaction (some row))
        passRow codec type transaction row
        takeRows codec outcomes type transaction columns finish rows (remaining.map Nat.pred)

def takeQueryRows (outcomes : Outcomes) (type : BoltMsg) (transaction : Option Nat)
    (query : ActiveBoltQuery) (n : Option Nat) : Handler (Option (QueryResultCursor × Bool)) :=
  let cursor := query.result
  match query.bufferedRow with
  | none => takeRows codec outcomes type transaction cursor.columns cursor.finish cursor.rows n
  | some row => do
    let ignored ← ignoreInterruptedOrClosedRequest
    if ignored then do
      abortSession outcomes
      return none
    else do
      passRow codec type transaction row
      takeRows codec outcomes type transaction cursor.columns cursor.finish cursor.rows (n.map Nat.pred)

def lookAhead (transaction : Option Nat) (cursor : QueryResultCursor) (stopped : Bool) :
    Handler (Option Row × QueryResultCursor) :=
  if stopped then nextRow transaction cursor else return (none, cursor)

/-- The result that PULL or DISCARD refers to: the query, its number in the
explicit transaction, and the transaction it runs in. -/
structure Target where
  query : ActiveBoltQuery
  qid : Option Int
  transaction : Option Nat

def findTarget (type : BoltMsg) (qid : Int) : Handler Target := do
  let work ← get
  match work.session.activeTransaction with
  | some transaction => do
    checkTransactionLeader outcomes transaction
    let qid := if qid = -1 then transaction.nextQueryId - 1 else qid
    match transaction.queries.lookup qid with
    | some query => return ⟨query, some qid, transaction.transaction⟩
    | none => throw ⟨.inputError,
        type.toString ++ " refers to an unknown result stream [" ++ toString qid ++ "]"⟩
  | none => do
    require (check (qid = -1) ⟨.inputError, "auto-commit results do not have a qid"⟩)
    match work.session.activeQuery with
    | some query => return ⟨query, none, query.transaction⟩
    | none => throw ⟨.inputError, type.toString ++ " requires an active result stream"⟩

def BoltSession.setQuery (session : BoltSession) (qid : Option Int) (query : ActiveBoltQuery) : BoltSession :=
  match qid with
  | none => { session with activeQuery := some query }
  | some qid => { session with
      activeTransaction := session.activeTransaction.map fun transaction =>
        { transaction with
          queries := transaction.queries.map fun entry => if entry.1 = qid then (qid, query) else entry } }

def BoltSession.endQuery (session : BoltSession) (qid : Int) : BoltSession :=
  match session.activeTransaction with
  | none => session
  | some transaction =>
    let queries := transaction.queries.filter fun entry => entry.1 ≠ qid
    { session with
      activeTransaction := some { transaction with queries }
      state := if queries.isEmpty then .txReady else .txStreaming }

def commitQuery (query : ActiveBoltQuery) : Handler Unit :=
  match query.transaction with
  | some transaction => do
    emit (.commit transaction)
    perform outcomes.commit
  | none => return ()

def answerHasMore (target : Target) (query : ActiveBoltQuery) : Handler Unit := do
  setSession fun session => { session.setQuery target.qid query with
    ps := session.ps ++ [.success [("has_more", .bool true)]]
    state := if target.qid.isSome then .txStreaming else .streaming }
  flushSessionBuffer

def endResult (target : Target) : Handler Unit :=
  match target.qid with
  | some qid => setSession fun session => session.endQuery qid
  | none => do
    commitQuery outcomes target.query
    setSession fun session => { session with activeQuery := none, state := .ready }

def finishQuery (target : Target) : Handler Unit := do
  endResult outcomes target
  setSession fun session => { session with ps := session.ps ++ [.success []] }
  flushSessionBuffer

def processPullOrDiscard (outcomes : Outcomes) (type : BoltMsg) (fields : List Any) :
    Handler Unit :=
  tryCatch (do
    let metadata ← require (extractPullOrDiscardMetadata type fields)
    arrive outcomes.start
    let target ← findTarget outcomes type metadata.qid
    let taken ← takeQueryRows codec outcomes type target.transaction target.query metadata.n
    match taken with
    | none => return ()
    | some (cursor, stopped) => do
      let ahead ← lookAhead target.transaction cursor stopped
      let ignored ← ignoreInterruptedOrClosedRequest
      if ignored then abortSession outcomes
      else if ahead.1.isSome then
        answerHasMore target { target.query with result := ahead.2, bufferedRow := ahead.1 }
      else do
        arrive outcomes.now
        let ignored ← ignoreInterruptedOrClosedRequest
        if ignored then abortSession outcomes
        else finishQuery outcomes target)
    (failSession outcomes)

/-! ## Queries -/

structure RunRequest where
  cypher : String
  params : Metadata
  extra : Metadata

def runFields : List Any → Except Failure RunRequest
  | [.string cypher, .map params, .map extra] => .ok ⟨cypher, params, extra⟩
  | [first, second, third] => .error ⟨.inputError, "Run msg fields should be (string, map, map), got (" ++
      first.typeName ++ ", " ++ second.typeName ++ ", " ++ third.typeName ++ ")"⟩
  | fields => .error ⟨.inputError, "Run msg fields size error, size: " ++ fields.length.repr⟩

def runMetadata (transaction : Option ActiveBoltTransaction) (extra : Metadata) :
    Except Failure TransactionMetadata :=
  match transaction with
  | none => parseTransactionMetadata extra defaultDatabaseName false
  | some transaction => do
    let metadata ← parseTransactionMetadata extra transaction.graphName transaction.readOnly
    check (metadata.graph = transaction.graphName ∧ metadata.readOnly = transaction.readOnly)
      ⟨.inputError, "RUN cannot change the database or access mode of a transaction"⟩
    return metadata

def checkExplicitLeader : Option ActiveBoltTransaction → Handler Unit
  | some transaction => checkTransactionLeader outcomes transaction
  | none => return ()

def checkRoutedLeader (routingEnabled : Bool) (metadata : TransactionMetadata) : Handler Unit :=
  if routingEnabled then do
    let status ← perform outcomes.raftStatus
    let _ ← require (checkGraphLeader status metadata.graph metadata.readOnly none)
  else return ()

def executeQuery (explicit : Option ActiveBoltTransaction)
    (routingEnabled : Bool) (metadata : TransactionMetadata) (cypher : String) : Handler ActiveBoltQuery :=
  if metadata.graph = systemDatabaseName ∨ explicit.isSome then do
    let cursor ← perform outcomes.execute
    return ⟨metadata.graph, cypher, none, cursor, none⟩
  else do
    perform outcomes.openGraph
    checkRoutedLeader outcomes routingEnabled metadata
    let transaction ← beginTransaction outcomes false
    let cursor ← perform outcomes.execute
    return ⟨metadata.graph, cypher, some transaction, cursor, none⟩

def maxQueryId : Int := 2 ^ 63 - 1

def columnsField (query : ActiveBoltQuery) : String × Any :=
  ("fields", .list (query.result.columns.map .string))

def processRun (outcomes : Outcomes) (fields : List Any) : Handler Unit :=
  tryCatch (do
    let request ← require (runFields fields)
    let work ← get
    let explicit := work.session.activeTransaction
    let metadata ← require (runMetadata explicit request.extra)
    checkExplicitLeader outcomes explicit
    let _ ← require (request.params.mapM fun param => codec.convertParameter param.2)
    let query ← executeQuery outcomes explicit work.session.routingEnabled metadata request.cypher
    let ignored ← ignoreInterruptedOrClosedRequest
    if ignored then abortSession outcomes
    else
      match explicit with
      | some transaction => do
        require (check (transaction.nextQueryId < maxQueryId)
          ⟨.outOfRange, "too many queries in a Bolt transaction"⟩)
        setSession fun session => { session with
          activeTransaction := some { transaction with
            queries := transaction.queries ++ [(transaction.nextQueryId, query)]
            nextQueryId := transaction.nextQueryId + 1 }
          state := .txStreaming }
        post (.success [columnsField query, ("qid", .int transaction.nextQueryId)])
      | none => do
        setSession fun session => { session with activeQuery := some query, state := .streaming }
        post (.success [columnsField query]))
    (failSession outcomes)

def processReadyState (outcomes : Outcomes) (minorVersion : Nat) (message : BoltMsgDetail) :
    Handler Unit :=
  match message.type with
  | .begin => processBegin outcomes message.fields
  | .route =>
    if minorVersion < 3 then failUnsupportedRequest outcomes "routing before Bolt 4.3"
    else processRoute outcomes
  | .run => processRun codec outcomes message.fields
  | _ => closeProtocolError outcomes

def processStreamingState (outcomes : Outcomes) (message : BoltMsgDetail) : Handler Unit :=
  match message.type with
  | .pullN | .discardN => processPullOrDiscard codec outcomes message.type message.fields
  | _ => closeProtocolError outcomes

def processTransactionState (outcomes : Outcomes) (state : SessionState)
    (message : BoltMsgDetail) : Handler Unit :=
  if message.type = .run then processRun codec outcomes message.fields
  else if state = .txStreaming ∧ (message.type = .pullN ∨ message.type = .discardN) then
    processPullOrDiscard codec outcomes message.type message.fields
  else if state = .txReady ∧ (message.type = .commit ∨ message.type = .rollback) then
    processCommitOrRollback outcomes message.type message.fields
  else closeProtocolError outcomes

/-- A message of an interrupted session. The RESET of the last interrupt makes the
session ready. -/
def processInterrupted (type : BoltMsg) : Handler Unit := do
  abortSession outcomes
  if type = .reset then do
    let work ← get
    setSession fun session => session.consumeInterrupt.1
    if work.session.consumeInterrupt.2 then do
      arrive outcomes.now
      setSession fun session => { session with cancelled := false, state := .ready }
      postSuccess
    else postIgnored
  else postIgnored

def processBoltMessage (outcomes : Outcomes) (message : BoltMsgDetail) : Handler Unit := do
  let work ← get
  if work.session.hasInterrupt then processInterrupted outcomes message.type
  else
    match work.session.state with
    | .failed => processRecoverableState outcomes message.type
    | .ready => processReadyState codec outcomes work.minorVersion message
    | .streaming => processStreamingState codec outcomes message
    | .txReady | .txStreaming => processTransactionState codec outcomes work.session.state message
    | .defunct => closeProtocolError outcomes

end RocksGraph.Bolt
