import Vole.Server.Command

/-!
# Commands on streams, documents, time series, tags and queues

The cases of `Server.exec` that work on one key of these types. `XCLAIM`, `XAUTOCLAIM`,
`XTRIM` and `DEQUEUE` change their key and log nothing. A command that waits for new
messages is modelled by its last attempt.
-/

namespace Vole.Server.Cmd

open Go Outcome

/-! ## Streams -/

/-- `xadd`: the identifier is chosen first, logged, and then used. -/
def xAdd : KeyCmd := .of "XADD" (5 ≤ ·) (fun env _ rest c =>
  match c.nextStreamID env.now (arg rest 2) with
  | (.error e, c) => fail c (e.text env.R)
  | (.ok id, c) =>
    logged env.R (bytes "XADD", id :: rest.drop 1) (c.xAddPrepared env.now id (rest.drop 1))
      (fun _ => [.bulk id]))

/-- `xrange` -/
def xRange : KeyCmd := .of "XRANGE" (fun n => n = 4 ∨ n = 6) (fun env _ rest c =>
  let run := fun count => answer c (.ok (writeEntries
    (c.xRange env.now (arg rest 2) (arg rest 3) count)))
  if rest.length + 2 = 6 then
    if toUpper (arg rest 4) ≠ bytes "COUNT" then fail c (wrongArgs (bytes "XRANGE"))
    else attempt c (atoi env.R (arg rest 5)) run
  else run 0)

def xLen : KeyCmd := .of "XLEN" (· = 2) (fun env _ _ c =>
  query env.R c (c.xLen env.now) (fun n => [.int n]))

/-- `xack` -/
def xAck : KeyCmd := .of "XACK" (4 ≤ ·) (fun env word rest c =>
  if !c.xGroupExists env.now (arg rest 2) then fail c (bytes "consumer group does not exist")
  else logged env.R (word, rest) (c.xAck env.now (arg rest 2) (rest.drop 1)) (fun n => [.int n]))

def xClaim : KeyCmd := .of "XCLAIM" (6 ≤ ·) (fun env _ rest c =>
  attempt c (parseInt64 env.R (arg rest 4)) (fun minIdle =>
    let r := c.xClaim env.now (arg rest 2) (arg rest 3) minIdle (rest.drop 3)
    ⟨replyOf env.R r.1 writeEntries, r.2, []⟩))

/-- The loop of `XAUTOCLAIM` over its options: the argument after each `COUNT`. -/
def parseCount (R : Runtime) : Int → List Bytes → Except Bytes Int
  | n, a :: b :: rest =>
    if equalFold a "COUNT" then
      match atoi R b with
      | .error e => .error e
      | .ok m => parseCount R m (b :: rest)
    else parseCount R n (b :: rest)
  | n, _ => .ok n

def xAutoClaim : KeyCmd := .of "XAUTOCLAIM" (6 ≤ ·) (fun env _ rest c =>
  attempt c (parseInt64 env.R (arg rest 4)) (fun minIdle =>
    attempt c (parseCount env.R 100 (rest.drop 4)) (fun count =>
      let r := c.xAutoClaim env.now (arg rest 2) (arg rest 3) minIdle (arg rest 5) count env.hint
      ⟨replyOf env.R r.1 (fun p => .arrayLen 3 :: .bulk p.1 :: (writeEntries p.2 ++ [.arrayLen 0])),
        r.2, []⟩)))

def xPending : KeyCmd := .of "XPENDING" (3 ≤ ·) (fun env _ rest c =>
  let (total, minID, maxID, consumers) := c.xPendingSummary (arg rest 2) env.hint
  if total = 0 then answer c (.ok [.arrayLen 4, .int 0, .null, .null, .arrayLen 0])
  else answer c (.ok ([.arrayLen 4, .int total, .bulk minID, .bulk maxID,
      .arrayLen consumers.size] ++ (enumerate env.hint consumers.keys).flatMap (fun consumer =>
        [.arrayLen 2, .bulk consumer,
          .bulk (formatInt ((consumers.get consumer).getD 0))]))))

/-- The length in the arguments of `XTRIM`: `[~] MAXLEN [~] length`. -/
def parseMaxLen (R : Runtime) (rest : List Bytes) : Except Bytes Int :=
  let short : Except Bytes Int := .error (wrongArgs (bytes "XTRIM"))
  let skip := fun l : List Bytes => if l.head? = some (bytes "~") then l.tail else l
  match skip rest with
  | [] => short
  | word :: rest =>
    if !equalFold word "MAXLEN" then short
    else
      match skip rest with
      | [] => short
      | number :: _ => atoi R number

def xTrim : KeyCmd := .of "XTRIM" (4 ≤ ·) (fun env _ rest c =>
  attempt c (parseMaxLen env.R rest) (fun maxLen =>
    let r := c.xTrim maxLen
    ⟨replyOf env.R r.1 (fun n => [.int n]), r.2, []⟩))

/-! ## Documents -/

/-- The optional path of the document commands. -/
def jsonPath (rest : List Bytes) : Bytes :=
  if rest.length + 2 = 3 then arg rest 2 else bytes "$"

/-- A reading command on a document with an optional path. -/
def jsonQuery {α : Type} (name : String) (read : Runtime → Entry → Time → Bytes → Except Err α)
    (out : α → List Out) : KeyCmd := .of name (fun n => 2 ≤ n ∧ n ≤ 3) (fun env _ rest c =>
  query env.R c (read env.R c.toEntry env.now (jsonPath rest)) out)

def jsonSet : KeyCmd := .of "JSON.SET" (· = 4) (fun env word rest c =>
  logged env.R (word, rest) (c.jsonSet env.R env.now (arg rest 2) (arg rest 3))
    (fun _ => [.simple (bytes "OK")]))

def jsonGet : KeyCmd := jsonQuery "JSON.GET" Entry.jsonGet bulkOrNull

def jsonDel : KeyCmd := .of "JSON.DEL" (fun n => 2 ≤ n ∧ n ≤ 3) (fun env word rest c =>
  logged env.R (word, rest) (c.jsonDel env.now (jsonPath rest))
    (fun deleted => [.int (if deleted then 1 else 0)]))

def jsonType : KeyCmd := jsonQuery "JSON.TYPE"
  (fun _ e now path => .ok (e.jsonType now path)) (fun t => [.bulk t])

def jsonNumIncrBy : KeyCmd := .of "JSON.NUMINCRBY" (· = 4) (fun env word rest c =>
  attempt c (parseFloat64 env.R (arg rest 3)) (fun delta =>
    logged env.R (word, rest) (c.jsonNumIncrBy env.R env.now (arg rest 2) delta)
      (fun x => [.bulk (env.R.formatFloat x)])))

def jsonArrAppend : KeyCmd := .of "JSON.ARRAPPEND" (4 ≤ ·) (fun env word rest c =>
  logged env.R (word, rest) (c.jsonArrAppend env.R env.now (arg rest 2) (rest.drop 1))
    (fun n => [.int n]))

def jsonArrLen : KeyCmd := jsonQuery "JSON.ARRLEN" (fun _ e now path => e.jsonArrLen now path)
  (fun n => [.int n])

def jsonKeys : KeyCmd := jsonQuery "JSON.KEYS" (fun _ e now path => e.jsonKeys now path)
  writeBulkStrings

/-! ## Tags -/

/-- `strings.SplitN(s, "=", 2)`, if the text has an equals sign. -/
def splitEquals (s : Bytes) : Option (Bytes × Bytes) :=
  match s.dropWhile (· ≠ 61) with
  | [] => none
  | _ :: value => some (s.takeWhile (· ≠ 61), value)

/-- The tags of `TAG`. -/
def parseTags (R : Runtime) : List Bytes → Except Bytes (List (Bytes × Bytes))
  | [] => .ok []
  | text :: rest =>
    match splitEquals text with
    | none => .error (bytes "invalid tag format: " ++ R.quote text ++ bytes " (use key=value)")
    | some tag => (parseTags R rest).map (tag :: ·)

def tag : KeyCmd := .of "TAG" (3 ≤ ·) (fun env word rest c =>
  attempt c (parseTags env.R rest) (fun tags =>
    logged env.R (word, rest) (c.tagSet env.now tags) (fun _ => [.simple (bytes "OK")])))

def tagGet : KeyCmd := .of "TAGGET" (· = 2) (fun env _ _ c =>
  match c.tagGet env.now with
  | none => answer c (.ok [.nullArray])
  | some tags => answer c (.ok (writeBulkStrings
      (tags.sortedKeys.flatMap (fun k => [k, (tags.get k).getD []])))))

def tagDel : KeyCmd := .of "TAGDEL" (3 ≤ ·) (fun _ word rest c =>
  let r := c.tagDel rest
  ⟨intReply r.1, r.2, [(word, rest)]⟩)

/-! ## Time series -/

/-- The timestamp of `TS.ADD`; `*` stands for the present. -/
def parseTimestamp (R : Runtime) (text : Bytes) : Except Bytes Int :=
  if text = bytes "*" then .ok 0 else parseInt64 R text

/-- The labels of `TS.ADD`, from the arguments after the value. -/
def parseLabels (args : List Bytes) : List (Bytes × Bytes) :=
  (if equalFold (args.headD []) "LABELS" then args.tail else args).filterMap splitEquals

def tsAdd : KeyCmd := .of "TS.ADD" (4 ≤ ·) (fun env word rest c =>
  attempt c (parseTimestamp env.R (arg rest 2)) (fun timestamp =>
    attempt c (parseFloat64 env.R (arg rest 3)) (fun value =>
      logged env.R (word, rest) (c.tsAdd env.now timestamp value (parseLabels (rest.drop 2)))
        (fun _ => [.simple (bytes "OK")]))))

def writeSample (R : Runtime) (sample : TSSample) : List Out :=
  [.arrayLen 2, .int sample.timestamp, .bulk (R.formatFloat sample.value)]

def tsRange : KeyCmd := .of "TS.RANGE" (4 ≤ ·) (fun env _ rest c =>
  let start := if arg rest 2 = bytes "-" then 0 else parseIntValue (arg rest 2)
  let stop := if arg rest 3 = bytes "+" then 2 ^ 62 else parseIntValue (arg rest 3)
  let count := if 6 ≤ rest.length + 2 ∧ equalFold (arg rest 4) "COUNT" then
    parseIntValue (arg rest 5) else 0
  let samples := c.tsRange env.now start stop count
  answer c (.ok (.arrayLen samples.length :: samples.flatMap (writeSample env.R))))

def tsGet : KeyCmd := .of "TS.GET" (· = 2) (fun env _ _ c =>
  answer c (.ok ((c.tsGet env.now).elim [.nullArray] (writeSample env.R))))

def tsInfo : KeyCmd := .of "TS.INFO" (· = 2) (fun env _ _ c =>
  query env.R c (c.tsInfo env.now) (fun (count, labels, firstTS, lastTS) =>
    [.arrayLen 10, .bulk (bytes "total_samples"), .int count,
      .bulk (bytes "first_timestamp"), .int firstTS, .bulk (bytes "last_timestamp"), .int lastTS,
      .bulk (bytes "labels")]
    ++ writeBulkStrings ((enumerate env.hint labels.keys).flatMap
      (fun k => [k, (labels.get k).getD []]))
    ++ [.bulk (bytes "retention"), .int 0]))

/-! ## Queues -/

def dequeue : KeyCmd := .of "DEQUEUE" (2 ≤ ·) (fun env _ rest c =>
  let timeout := if 4 ≤ rest.length + 2 ∧ equalFold (arg rest 2) "TIMEOUT" then
    (parseFloat64 env.R (arg rest 3)).map (fun _ => ()) else .ok ()
  attempt c timeout (fun _ =>
    match c.dequeue env.now env.hint with
    | (none, c) => answer c (.ok [.nullArray])
    | (some msg, c) => answer c (.ok [.arrayLen 3, .bulk msg.id, .bulk msg.body, .int msg.retries])))

def qAck : KeyCmd := .of "QACK" (· = 3) (fun _ word rest c =>
  let r := c.qAck (arg rest 2)
  ⟨boolReply r.1, r.2, [(word, rest)]⟩)

def qNack : KeyCmd := .of "QNACK" (· = 3) (fun env word rest c =>
  let r := c.qNack env.now (arg rest 2)
  ⟨boolReply r.1, r.2, [(word, rest)]⟩)

/-- `writeQueueMessages` -/
def writeQueueMessages (env : KeyEnv) (msgs : List QueueMessage) : List Out :=
  .arrayLen msgs.length :: msgs.flatMap (fun msg =>
    [.arrayLen 4, .bulk msg.id, .bulk msg.body, .int msg.retries,
      .bulk (env.rfc3339 msg.createdAt)])

/-- The optional `COUNT` of `QPEEK` and `QDEAD`. -/
def queueCount (rest : List Bytes) (default : Int) : Int :=
  if 4 ≤ rest.length + 2 ∧ equalFold (arg rest 2) "COUNT" then parseIntValue (arg rest 3)
  else default

def qPeek : KeyCmd := .of "QPEEK" (2 ≤ ·) (fun env _ rest c =>
  answer c (.ok (writeQueueMessages env (c.qPeek (queueCount rest 1)))))

def qLen : KeyCmd := .of "QLEN" (· = 2) (fun _ _ _ c => answer c (intReply c.qInfo.1))

def qInfo : KeyCmd := .of "QINFO" (· = 2) (fun _ _ _ c =>
  let (pending, processing, dead) := c.qInfo
  answer c (.ok [.arrayLen 6, .bulk (bytes "pending"), .int pending,
    .bulk (bytes "processing"), .int processing, .bulk (bytes "dead_letter"), .int dead]))

def qDead : KeyCmd := .of "QDEAD" (2 ≤ ·) (fun env _ rest c =>
  answer c (.ok (writeQueueMessages env (c.qDead (queueCount rest 10)))))

end Vole.Server.Cmd
