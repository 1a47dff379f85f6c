import Vole.Server.StringCommands
import Vole.Server.CollectionCommands
import Vole.Server.DocumentCommands
import Vole.Store.Queries

/-!
# Commands on several keys and on the whole store

The cases of `Server.exec` that look at more than one key, and those whose key is not the
first argument. In `args.getD i []` the index is the one of the source.

In a run where commands come one at a time nobody pushes while `BLPOP` or `XREAD` waits;
such a command is modelled by what it finds at once.
-/

namespace Vole.Server.Cmd

open Go Result

/-- A case of `exec`, given all arguments. -/
abbrev StoreCmd := Env → List Bytes → Store → Result

/-- The arity check of a case. -/
def counted (name : String) (ok : Nat → Bool) (run : StoreCmd) : StoreCmd := fun env args s =>
  if !ok args.length then fail s (wrongArgs (bytes name)) else run env args s

theorem counted_elim {P : Result → Prop} {name : String} {ok : Nat → Bool} {run : StoreCmd}
    {env : Env} {args : List Bytes} {s : Store} (hfail : ∀ e, P (fail s e))
    (h : ok args.length = true → P (run env args s)) : P (counted name ok run env args s) := by
  unfold counted
  split
  · exact hfail _
  · rename_i hn
    exact h (by simpa using hn)

/-- A reading operation. -/
def reading {α : Type} (R : Runtime) (s : Store) (r : Except Err α) (out : α → List Out) : Result :=
  answer s (replyOf R r out)

/-- The record is appended and the operation is then run, whatever comes of it. -/
def logThen {α : Type} (R : Runtime) (record : Record) (r : Except Err α × Store)
    (out : α → List Out) : Result :=
  ⟨replyOf R r.1 out, r.2, [record]⟩

/-! ## Strings -/

def mGet : StoreCmd := counted "MGET" (2 ≤ ·) (fun env args s =>
  owned env args.tail s (answer s (.ok (.arrayLen args.tail.length
    :: (s.mGet env.now args.tail).flatMap bulkOrNull))))

/-- The `MSETABS` record of `MSET` and `MSETNX`. -/
def mSetAbs (pairs : List (Bytes × Bytes)) : Record :=
  bytes "MSETABS" :: pairs.flatMap (fun p => [p.1, p.2, bytes "0"])

/-- `mset` -/
def mSet : StoreCmd := counted "MSET" (fun n => 3 ≤ n ∧ n % 2 = 1) (fun env args s =>
  let pairs := pairUp args.tail
  owned env (pairs.map (·.1)) s
    ⟨okReply, pairs.foldl (fun s p => s.modify p.1 (Cell.setAbsolute p.2 zeroTime)) s,
      [mSetAbs pairs]⟩)

def mSetNX : StoreCmd := counted "MSETNX" (fun n => 3 ≤ n ∧ n % 2 = 1) (fun env args s =>
  let pairs := pairUp args.tail
  owned env (pairs.map (·.1)) s
    (match s.mSetNX env.now pairs with
    | (false, s) => answer s (intReply 0)
    | (true, s) => ⟨intReply 1, s, [mSetAbs pairs]⟩))

def bitOp : StoreCmd := counted "BITOP" (4 ≤ ·) (fun env args s =>
  let dest := args.getD 2 []
  owned env (args.drop 2) s
    (match s.bitOp env.now (args.getD 1 []) dest (args.drop 3) with
    | (.error e, s) => fail s (e.text env.R)
    | (.ok n, s) =>
      ⟨intReply n, s,
        [[bytes "SETABS", dest, ((s.entries dest).get env.now).getD [], bytes "0"]]⟩))

/-! ## Keys -/

/-- `EXISTS` and `TOUCH`. -/
def existing (name : String) : StoreCmd := counted name (2 ≤ ·) (fun env args s =>
  owned env args.tail s (answer s (intReply (s.existCount env.now args.tail))))

def exists_ : StoreCmd := existing "EXISTS"

def touch : StoreCmd := existing "TOUCH"

def keys : StoreCmd := counted "KEYS" (· = 2) (fun env args s =>
  answer s (.ok (writeBulkStrings (s.keys env.now (args.getD 1 [])))))

/-- The loop of `scan` over its options: the pattern and the count. -/
def parseScan (R : Runtime) : Bytes × Int → List Bytes → Except Bytes (Bytes × Int)
  | o, [] => .ok o
  | _, [_] => .error (wrongArgs (bytes "SCAN"))
  | o, opt :: value :: rest =>
    if toUpper opt = bytes "MATCH" then parseScan R (value, o.2) rest
    else if toUpper opt = bytes "COUNT" then
      match atoi R value with
      | .error e => .error e
      | .ok n => parseScan R (o.1, n) rest
    else .error (bytes "unsupported SCAN option " ++ R.quote opt)

/-- What `SCAN` writes. -/
def writeScan (r : Int × List Bytes) : List Out :=
  .arrayLen 2 :: .bulk (formatInt r.1) :: writeBulkStrings r.2

/-- `scan` -/
def scan : StoreCmd := counted "SCAN" (2 ≤ ·) (fun env args s =>
  attempt s (atoi env.R (args.getD 1 [])) (fun cursor =>
    attempt s (parseScan env.R (bytes "*", 10) (args.drop 2)) (fun o =>
      reading env.R s (s.scan env.now cursor o.2 o.1) writeScan)))

def del : StoreCmd := counted "DEL" (2 ≤ ·) (fun env args s =>
  owned env args.tail s
    (let r := Store.del env.now args.tail s
    ⟨intReply r.1, r.2, [args]⟩))

def unlink : StoreCmd := counted "UNLINK" (2 ≤ ·) (fun env args s =>
  owned env args.tail s
    (let r := Store.del env.now args.tail s
    ⟨intReply r.1, r.2, [bytes "DEL" :: args.tail]⟩))

def dbSize : StoreCmd := counted "DBSIZE" (· = 1) (fun env _ s =>
  answer s (intReply (s.dbSize env.now)))

def rename : StoreCmd := counted "RENAME" (· = 3) (fun env args s =>
  owned env args.tail s
    (logThen env.R args (s.rename env.now (args.getD 1 []) (args.getD 2 []))
      (fun _ => [.simple (bytes "OK")])))

def copy : StoreCmd := counted "COPY" (fun n => 3 ≤ n ∧ n ≤ 5) (fun env args s =>
  owned env [args.getD 1 [], args.getD 2 []] s
    (let replace := (args.drop 3).any (fun a => equalFold a "REPLACE")
    match s.copy env.now (args.getD 1 []) (args.getD 2 []) replace with
    | (false, s) => answer s (intReply 0)
    | (true, s) => ⟨intReply 1, s, [args]⟩))

def randomKey : StoreCmd := counted "RANDOMKEY" (· = 1) (fun env _ s =>
  answer s (.ok (bulkOrNull (s.randomKey env.now env.hint))))

/-- The cases of `OBJECT` that answer something about an existing key. -/
def object : StoreCmd := counted "OBJECT" (2 ≤ ·) (fun env args s =>
  let sub := toUpper (args.getD 1 [])
  let typ := (s.entries (args.getD 2 [])).type env.now
  if sub = bytes "ENCODING" ∨ sub = bytes "REFCOUNT" ∨ sub = bytes "IDLETIME"
      ∨ sub = bytes "FREQ" then
    if args.length ≠ 3 then fail s (wrongArgs (bytes "OBJECT"))
    else if sub = bytes "ENCODING" then answer s (.ok (bulkOrNull (encodingOf typ)))
    else if typ = bytes "none" then answer s (.ok [.null])
    else answer s (intReply (if sub = bytes "REFCOUNT" then 1 else 0))
  else if sub = bytes "HELP" then answer s (.ok (writeBulkStrings [
    bytes "OBJECT ENCODING <key> - Return the encoding of a key.",
    bytes "OBJECT REFCOUNT <key> - Return the reference count of a key.",
    bytes "OBJECT IDLETIME <key> - Return the idle time of a key.",
    bytes "OBJECT FREQ <key> - Return the access frequency of a key.",
    bytes "OBJECT HELP - Return this help text."]))
  else fail s (bytes "unsupported OBJECT subcommand " ++ env.R.quote (args.getD 1 [])))

def memory : StoreCmd := counted "MEMORY" (2 ≤ ·) (fun env args s =>
  let sub := toUpper (args.getD 1 [])
  if sub = bytes "USAGE" then
    if args.length ≠ 3 then fail s (wrongArgs (bytes "MEMORY"))
    else if (s.entries (args.getD 2 [])).type env.now = bytes "none" then answer s (.ok [.null])
    else answer s (intReply 64)
  else if sub = bytes "DOCTOR" then
    answer s (.ok [.bulk (bytes "Sam, I have no memory problems")])
  else if sub = bytes "HELP" then answer s (.ok (writeBulkStrings
    [bytes "MEMORY USAGE <key>", bytes "MEMORY DOCTOR", bytes "MEMORY HELP"]))
  else fail s (bytes "unsupported MEMORY subcommand " ++ env.R.quote (args.getD 1 [])))

/-! ## Hashes and tags -/

/-- What the loop of `hsearch` collects: conditions, offset and count. -/
abbrev SearchOptions := List SearchCondition × Int × Int

/-- The loop of `hsearch` over its clauses. -/
def parseSearch (R : Runtime) : SearchOptions → List Bytes → Except Bytes SearchOptions
  | o, [] => if o.1 = [] then .error (wrongArgs (bytes "HSEARCH")) else .ok o
  | o, word :: rest =>
    if equalFold word "AND" then parseSearch R o rest
    else
      match rest with
      | a :: b :: rest =>
        if equalFold word "LIMIT" then
          match atoi R a, atoi R b with
          | .error e, _ => .error e
          | .ok _, .error e => .error e
          | .ok offset, .ok count => parseSearch R (o.1, offset, count) rest
        else parseSearch R (o.1 ++ [⟨word, a, b⟩], o.2) rest
      | _ => .error (wrongArgs (bytes "HSEARCH"))

/-- `hsearch` -/
def hSearch : StoreCmd := counted "HSEARCH" (5 ≤ ·) (fun env args s =>
  if !equalFold (args.getD 2 []) "WHERE" then fail s (wrongArgs (bytes "HSEARCH"))
  else
    attempt s (parseSearch env.R ([], 0, 0) (args.drop 3)) (fun o =>
      let results := s.hSearch env.R env.now (args.getD 1 []) o.1 o.2.1 o.2.2
      answer s (.ok (.arrayLen results.length :: results.flatMap (fun r =>
        .arrayLen 2 :: .bulk r.1 :: writeBulkStrings
          (r.2.sortedKeys.flatMap (fun f => [f, (r.2.get f).getD []])))))))

/-- The loop of `TAGQUERY`: the criteria and the limit. -/
def parseTagQuery : List (Bytes × Bytes) × Int → List Bytes → List (Bytes × Bytes) × Int
  | o, [] => o
  | o, word :: rest =>
    if equalFold word "AND" then parseTagQuery o rest
    else if equalFold word "LIMIT" then
      match rest with
      | [] => o
      | n :: rest => parseTagQuery (o.1, parseIntValue n) rest
    else parseTagQuery (o.1 ++ (splitEquals word).toList, o.2) rest

/-- `TAGQUERY`; of two criteria on the same field the later one counts. -/
def tagQuery : StoreCmd := counted "TAGQUERY" (2 ≤ ·) (fun env args s =>
  let o := parseTagQuery ([], 100) args.tail
  let criteria := fieldMap o.1
  let pairs := (enumerate env.hint criteria.keys).map (fun f => (f, (criteria.get f).getD []))
  answer s (.ok (writeBulkStrings (s.tagQuery env.now env.hint pairs o.2))))

/-! ## Lists -/

/-- `listPush` -/
def listPush (left : Bool) : StoreCmd := fun env args s =>
  if !decide (3 ≤ args.length) then fail s (wrongArgs (args.headD []))
  else
    let key := args.getD 1 []
    let typ := (s.entries key).type env.now
    owned env [key] s
      (if typ ≠ bytes "none" ∧ typ ≠ bytes "list" then fail s (bytes "wrong type")
      else logThen env.R args (s.pushList env.now key left (args.drop 2)) (fun n => [.int n]))

def lPush : StoreCmd := listPush true

def rPush : StoreCmd := listPush false

/-- `blpop` -/
def blpop (left : Bool) : StoreCmd := fun env args s =>
  if !decide (3 ≤ args.length) then fail s (wrongArgs (args.headD []))
  else
    attempt s (parseFloat64 env.R (args.getLastD [])) (fun _ =>
      let keys := args.tail.dropLast
      owned env keys s
        (match Store.bPopTry env.now left keys s with
        | (none, s) => answer s (.ok [.nullArray])
        | (some (key, val), s) =>
          ⟨.ok [.arrayLen 2, .bulk key, .bulk val], s,
            [[bytes (if left then "LPOP" else "RPOP"), key]]⟩))

def bLPop : StoreCmd := blpop true

def bRPop : StoreCmd := blpop false

/-- `RPOPLPUSH` and `LMOVE`, behind the checks of their arguments: the move is logged as a
pop and a push. -/
def moveElement (srcLeft dstLeft : Bool) (env : Env) (src dst : Bytes) (s : Store) : Result :=
  match s.lMove env.now src dst srcLeft dstLeft with
  | (.error e, s) => fail s (e.text env.R)
  | (.ok none, s) => answer s (.ok [.null])
  | (.ok (some val), s) =>
    ⟨.ok [.bulk val], s, [[bytes (if srcLeft then "LPOP" else "RPOP"), src],
      [bytes (if dstLeft then "LPUSH" else "RPUSH"), dst, val]]⟩

def rPopLPush : StoreCmd := counted "RPOPLPUSH" (· = 3) (fun env args s =>
  owned env args.tail s (moveElement false true env (args.getD 1 []) (args.getD 2 []) s))

def lMove : StoreCmd := counted "LMOVE" (· = 5) (fun env args s =>
  owned env [args.getD 1 [], args.getD 2 []] s
    (let srcLeft := equalFold (args.getD 3 []) "LEFT"
    let dstLeft := equalFold (args.getD 4 []) "LEFT"
    if (!srcLeft && !equalFold (args.getD 3 []) "RIGHT")
        || (!dstLeft && !equalFold (args.getD 4 []) "RIGHT") then
      fail s (wrongArgs (bytes "LMOVE"))
    else moveElement srcLeft dstLeft env (args.getD 1 []) (args.getD 2 []) s))

/-- The options of `SORT`. -/
structure SortOptions where
  alpha : Bool
  desc : Bool
  offset : Int
  count : Int
  storeKey : Bytes

/-- The loop of `SORT` over its options. -/
def parseSort (R : Runtime) : SortOptions → List Bytes → Except Bytes SortOptions
  | o, [] => .ok o
  | o, opt :: rest =>
    let word := toUpper opt
    if word = bytes "ALPHA" then parseSort R { o with alpha := true } rest
    else if word = bytes "ASC" then parseSort R { o with desc := false } rest
    else if word = bytes "DESC" then parseSort R { o with desc := true } rest
    else if word = bytes "LIMIT" then
      match rest with
      | a :: b :: rest =>
        match atoi R a, atoi R b with
        | .error e, _ => .error e
        | .ok _, .error e => .error e
        | .ok offset, .ok count =>
          parseSort R { o with offset := offset, count := count } rest
      | _ => .error (wrongArgs (bytes "SORT"))
    else if word = bytes "STORE" then
      match rest with
      | [] => .error (wrongArgs (bytes "SORT"))
      | dst :: rest => parseSort R { o with storeKey := dst } rest
    else .error (bytes "unsupported SORT option " ++ R.quote opt)

/-- `SORT` behind its options. An empty result is stored but not logged. -/
def sortRun (env : Env) (key : Bytes) (o : SortOptions) (s : Store) : Result :=
  let dst := if o.storeKey = [] then none else some o.storeKey
  match s.sort env.R env.now key o.alpha o.desc o.offset o.count dst env.hint with
  | (.error e, s) => fail s (e.text env.R)
  | (.ok result, s) =>
    if o.storeKey = [] then answer s (.ok (writeBulkStrings result))
    else ⟨intReply result.length, s,
      if result = [] then []
      else [[bytes "DEL", o.storeKey], bytes "RPUSH" :: o.storeKey :: result]⟩

def sort : StoreCmd := counted "SORT" (2 ≤ ·) (fun env args s =>
  let key := args.getD 1 []
  owned env [key] s
    (attempt s (parseSort env.R ⟨false, false, 0, 0, []⟩ (args.drop 2)) (fun o =>
      if o.storeKey = [] then sortRun env key o s
      else owned env [o.storeKey] s (sortRun env key o s))))

/-! ## Sets -/

/-- `SInter`, `SUnion` or `SDiff` of the store. -/
abbrev SetReader := Store → Time → List Bytes → Except Err (List Bytes)

/-- `SINTER`, `SUNION` and `SDIFF`. -/
def setQuery (name : String) (read : SetReader) : StoreCmd := counted name (2 ≤ ·) (fun env args s =>
  owned env args.tail s (reading env.R s (read s env.now args.tail) writeBulkStrings))

def sInter : StoreCmd := setQuery "SINTER" Store.sInter

def sUnion : StoreCmd := setQuery "SUNION" Store.sUnion

def sDiff : StoreCmd := setQuery "SDIFF" Store.sDiff

/-- Replacing the destination of `SINTERSTORE` and its kin. -/
def replaceSet (now : Time) (dest : Bytes) (members : List Bytes) (s : Store) : Store :=
  let s := (Store.del now [dest] s).2
  if members = [] then s else s.modify dest (fun c => (c.sAdd now members).2)

/-- `SINTERSTORE`, `SUNIONSTORE` and `SDIFFSTORE`. -/
def setStore (name : String) (read : SetReader) : StoreCmd := counted name (3 ≤ ·) (fun env args s =>
  let dest := args.getD 1 []
  owned env args.tail s
    (match read s env.now (args.drop 2) with
    | .error e => fail s (e.text env.R)
    | .ok members =>
      ⟨intReply members.length, replaceSet env.now dest members s,
        [bytes "DEL", dest]
          :: (if members = [] then [] else [bytes "SADD" :: dest :: members])⟩))

def sInterStore : StoreCmd := setStore "SINTERSTORE" Store.sInter

def sUnionStore : StoreCmd := setStore "SUNIONSTORE" Store.sUnion

def sDiffStore : StoreCmd := setStore "SDIFFSTORE" Store.sDiff

def sInterCard : StoreCmd := counted "SINTERCARD" (3 ≤ ·) (fun env args s =>
  attempt s (atoi env.R (args.getD 1 [])) (fun numkeys =>
    if numkeys < 1 ∨ (args.length : Int) < wrap64 (2 + numkeys) then
      fail s (wrongArgs (bytes "SINTERCARD"))
    else if (args.length : Int) < 2 + numkeys then fail s (Err.panic.text env.R)
    else
      let n := numkeys.toNat
      let keys := (args.drop 2).take n
      let limit := if toUpper (args.getD (2 + n) []) = bytes "LIMIT" ∧ 3 + n < args.length then
        parseIntValue (args.getD (3 + n) []) else 0
      owned env keys s (reading env.R s (s.sInter env.now keys) (fun members =>
        [.int (if 0 < limit then min (members.length : Int) limit else members.length)]))))

def sMove : StoreCmd := counted "SMOVE" (· = 4) (fun env args s =>
  owned env [args.getD 1 []] s (owned env [args.getD 2 []] s
    (logThen env.R args (s.sMove env.now (args.getD 1 []) (args.getD 2 []) (args.getD 3 []))
      (fun moved => [.int (if moved then 1 else 0)]))))

/-! ## Cardinality estimates -/

def pfCount : StoreCmd := counted "PFCOUNT" (2 ≤ ·) (fun env args s =>
  owned env args.tail s (answer s (intReply (s.pfCount env.R env.now args.tail))))

def pfMerge : StoreCmd := counted "PFMERGE" (2 ≤ ·) (fun env args s =>
  owned env args.tail s
    ⟨okReply, s.pfMerge env.now (args.getD 1 []) (args.drop 2), [args]⟩)

/-! ## Streams -/

/-- `writeStreamReadResults` -/
def writeStreamReadResults (results : Store.StreamResults) : List Out :=
  .arrayLen results.size :: results.sortedKeys.flatMap (fun name =>
    .arrayLen 2 :: .bulk name :: writeEntries ((results.get name).getD []))

/-- The streams and identifiers after the word `STREAMS`. -/
def parseStreams (name : String) (parts : List Bytes) : Except Bytes (List (Bytes × Bytes)) :=
  if parts = [] ∨ parts.length % 2 ≠ 0 then .error (wrongArgs (bytes name))
  else .ok ((parts.take (parts.length / 2)).zip (parts.drop (parts.length / 2)))

/-- The arguments of `xread`. -/
def parseXRead (R : Runtime) (rest : List Bytes) : Except Bytes (List (Bytes × Bytes)) :=
  let streams := fun rest : List Bytes =>
    if toUpper (rest.headD []) ≠ bytes "STREAMS" then .error (wrongArgs (bytes "XREAD"))
    else parseStreams "XREAD" rest.tail
  if toUpper (rest.headD []) = bytes "BLOCK" then
    match rest.tail with
    | [] => .error (wrongArgs (bytes "XREAD"))
    | ms :: rest =>
      match parseInt64 R ms with
      | .error e => .error e
      | .ok _ => streams rest
  else streams rest

/-- `xread` -/
def xRead : StoreCmd := fun env args s =>
  attempt s (parseXRead env.R args.tail) (fun streams =>
    owned env (streams.map (·.1)) s
      (let from_ := streams.map (fun p =>
        (p.1, if p.2 = bytes "$" then (s.entries p.1).lastStreamID env.now else p.2))
      let results := s.xRead env.now from_
      if results.isEmpty then answer s (.ok [.nullArray])
      else answer s (.ok (writeStreamReadResults results))))

/-- `xgroup` on the stream, behind the checks of its arguments. -/
def xGroupRun (env : KeyEnv) (record : Record) (group id : Bytes) (mkstream : Bool) (c : Cell) :
    Reply × Cell × List Record :=
  let typ := c.type env.now
  if typ ≠ bytes "none" ∧ typ ≠ bytes "stream" then (.error (bytes "wrong type"), c, [])
  else if typ = bytes "none" ∧ !mkstream then (.error (bytes "stream does not exist"), c, [])
  else if c.xGroupExists env.now group then
    (.error (bytes "consumer group already exists"), c, [])
  else
    let r := c.xGroupCreate env.now group id mkstream
    (replyOf env.R r.1 (fun _ => [.simple (bytes "OK")]), r.2, [record])

/-- `xgroup` -/
def xGroup : StoreCmd := counted "XGROUP" (fun n => n = 5 ∨ n = 6) (fun env args s =>
  if !equalFold (args.getD 1 []) "CREATE" then
    fail s (bytes "unsupported XGROUP subcommand " ++ env.R.quote (args.getD 1 []))
  else if args.length = 6 ∧ !equalFold (args.getD 5 []) "MKSTREAM" then
    fail s (wrongArgs (bytes "XGROUP"))
  else
    let stream := args.getD 2 []
    owned env [stream] s
      (let r := xGroupRun (env.at stream) args (args.getD 3 []) (args.getD 4 [])
        (args.length = 6) (s.cell stream)
      ⟨r.1, s.put stream r.2.1, r.2.2⟩))

/-- The loop of `xreadgroup` over its options: the count, and what follows `STREAMS`. -/
def parseReadGroup (R : Runtime) : Int → List Bytes → Except Bytes (Int × List Bytes)
  | _, [] => .error (wrongArgs (bytes "XREADGROUP"))
  | count, opt :: rest =>
    if equalFold opt "STREAMS" then .ok (count, rest)
    else
      match rest with
      | [] => .error (wrongArgs (bytes "XREADGROUP"))
      | n :: rest =>
        if toUpper opt = bytes "COUNT" then
          match atoi R n with
          | .error e => .error e
          | .ok n => parseReadGroup R n rest
        else if toUpper opt = bytes "BLOCK" then
          match parseInt64 R n with
          | .error e => .error e
          | .ok _ => parseReadGroup R count rest
        else .error (bytes "unsupported XREADGROUP option " ++ R.quote opt)

/-- The `XGROUPDELIVER` record of one stream. -/
def deliverRecord (now : Time) (stream group consumer : Bytes) (ids : List Bytes) : Record :=
  bytes "XGROUPDELIVER" :: stream :: group :: consumer :: nanoText now :: ids

/-- The loop of `xreadgroup` over the streams it found entries in. -/
def deliverAll (now : Time) (group consumer : Bytes) (results : Store.StreamResults) :
    List Bytes → Store → Except Err Unit × Store × List Record
  | [], s => (.ok (), s, [])
  | stream :: rest, s =>
    let ids := ((results.get stream).getD []).map (·.id)
    let record := deliverRecord now stream group consumer ids
    match s.onKey stream (Cell.xGroupDeliver now group consumer ids now) with
    | (.error e, s) => (.error e, s, [record])
    | (.ok (), s) =>
      let r := deliverAll now group consumer results rest s
      (r.1, r.2.1, record :: r.2.2)

/-- `xreadgroup` behind its options. -/
def readGroupRun (env : Env) (group consumer : Bytes) (count : Int)
    (streams : List (Bytes × Bytes)) (s : Store) : Result :=
  match s.xReadGroupPlan env.now group consumer count ∅ streams with
  | .error e => fail s (e.text env.R)
  | .ok results =>
    if results.isEmpty then answer s (.ok [.nullArray])
    else
      let r := deliverAll env.now group consumer results results.sortedKeys s
      ⟨replyOf env.R r.1 (fun _ => writeStreamReadResults results), r.2.1, r.2.2⟩

/-- `xreadgroup` -/
def xReadGroup : StoreCmd := fun env args s =>
  if args.length < 7 ∨ !equalFold (args.getD 1 []) "GROUP" then
    fail s (wrongArgs (bytes "XREADGROUP"))
  else
    attempt s (parseReadGroup env.R 10 (args.drop 4)) (fun o =>
      attempt s (parseStreams "XREADGROUP" o.2) (fun streams =>
        owned env (streams.map (·.1)) s
          (readGroupRun env (args.getD 2 []) (args.getD 3 []) o.1 streams s)))

def xInfo : StoreCmd := counted "XINFO" (3 ≤ ·) (fun env args s =>
  let stream := args.getD 2 []
  let label := fun text : String => Out.bulk (bytes text)
  owned env [stream] s
    (let sub := toUpper (args.getD 1 [])
    if sub = bytes "STREAM" then
      let (length, firstID, lastID, groups, present) := (s.entries stream).xInfoStream
      if !present && length = 0 then fail s (bytes "ERR no such key")
      else answer s (.ok [.arrayLen 14, label "length", .int length,
        label "radix-tree-keys", .int 0, label "radix-tree-nodes", .int 0,
        label "last-generated-id", .bulk lastID, label "groups", .int groups,
        label "first-entry", if 0 < length then .bulk firstID else .null,
        label "last-entry", if 0 < length then .bulk lastID else .null])
    else if sub = bytes "GROUPS" then
      let infos := (s.entries stream).xInfoGroups env.hint
      answer s (.ok (.arrayLen infos.length :: infos.flatMap (fun (name, consumers, pending, last) =>
        [.arrayLen 8, label "name", .bulk name, label "consumers", .int consumers,
          label "pending", .int pending, label "last-delivered-id", .bulk last])))
    else fail s (bytes "unsupported XINFO subcommand " ++ env.R.quote (args.getD 1 []))))

/-! ## Queues and time series -/

/-- The delay of `ENQUEUE`. -/
def enqueueDelay (R : Runtime) (args : List Bytes) : Except Bytes Duration :=
  if 5 ≤ args.length ∧ equalFold (args.getD 3 []) "DELAY" then
    (parseInt64 R (args.getD 4 [])).map (duration · second)
  else .ok 0

def enqueue : StoreCmd := counted "ENQUEUE" (3 ≤ ·) (fun env args s =>
  owned env [args.getD 1 []] s
    (attempt s (enqueueDelay env.R args) (fun delay =>
      let r := s.enqueue env.now (args.getD 1 []) (args.getD 2 []) delay
      ⟨.ok [.bulk r.1], r.2, [args]⟩)))

def tsDownsample : StoreCmd := counted "TS.DOWNSAMPLE" (· = 7) (fun env args s =>
  owned env [args.getD 1 [], args.getD 2 []] s
    (let r := s.tsDownsample env.R env.now (args.getD 1 []) (args.getD 2 [])
      (toLower (args.getD 3 [])) (parseIntValue (args.getD 4 [])) (parseIntValue (args.getD 5 []))
      (parseIntValue (args.getD 6 []))
    ⟨replyOf env.R r.1 (fun n => [.int n]), r.2, []⟩))

/-- `info`: `Stats` removes what has expired. -/
def info : StoreCmd := fun env args s => ⟨env.admin args, s.purgeExpired env.now env.hint, []⟩

end Vole.Server.Cmd
