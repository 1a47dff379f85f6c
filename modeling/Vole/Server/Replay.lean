import Vole.Server.Exec
import Vole.Go.Decimal

/-!
# Replaying records

`ReplayAOF` and `applyReplicatedCommand` interpret records with the same hand-written table,
apart from two words and from how `SET` reads its time to live. Numbers are read with
`fmt.Sscan`, whose errors are ignored.
-/

namespace Vole.Server

open Go

/-- The words of the table whose record is about the key in its first argument. -/
inductive KeyRecordWord where
  | setAbs | set | hSet | hDel | lPop | rPop | lSet | lInsert | sAdd | sRem | lRem | zAdd
  | zRem | incr | incrBy | decrBy | decr | incrByFloat | hIncrBy | append | expire
  | expireAtAbs | xAdd | xGroupDeliver | xAck | pfAdd | setDelayed | qAck | qNack | jsonSet
  | jsonDel | jsonNumIncrBy | jsonArrAppend | tag | tagDel | tsAdd
  deriving DecidableEq

/-- The other words of the table. -/
inductive StoreRecordWord where
  | mSetAbs | del | lPush | rPush | sMove | rename | xGroup | pfMerge | copy | enqueue
  deriving DecidableEq

inductive RecordWord where
  | key (w : KeyRecordWord)
  | store (w : StoreRecordWord)
  deriving DecidableEq

namespace RecordWord

def text : RecordWord → String
  | .key .setAbs => "SETABS"
  | .key .set => "SET"
  | .key .hSet => "HSET"
  | .key .hDel => "HDEL"
  | .key .lPop => "LPOP"
  | .key .rPop => "RPOP"
  | .key .lSet => "LSET"
  | .key .lInsert => "LINSERT"
  | .key .sAdd => "SADD"
  | .key .sRem => "SREM"
  | .key .lRem => "LREM"
  | .key .zAdd => "ZADD"
  | .key .zRem => "ZREM"
  | .key .incr => "INCR"
  | .key .incrBy => "INCRBY"
  | .key .decrBy => "DECRBY"
  | .key .decr => "DECR"
  | .key .incrByFloat => "INCRBYFLOAT"
  | .key .hIncrBy => "HINCRBY"
  | .key .append => "APPEND"
  | .key .expire => "EXPIRE"
  | .key .expireAtAbs => "EXPIREATABS"
  | .key .xAdd => "XADD"
  | .key .xGroupDeliver => "XGROUPDELIVER"
  | .key .xAck => "XACK"
  | .key .pfAdd => "PFADD"
  | .key .setDelayed => "SETDELAYED"
  | .key .qAck => "QACK"
  | .key .qNack => "QNACK"
  | .key .jsonSet => "JSON.SET"
  | .key .jsonDel => "JSON.DEL"
  | .key .jsonNumIncrBy => "JSON.NUMINCRBY"
  | .key .jsonArrAppend => "JSON.ARRAPPEND"
  | .key .tag => "TAG"
  | .key .tagDel => "TAGDEL"
  | .key .tsAdd => "TS.ADD"
  | .store .mSetAbs => "MSETABS"
  | .store .del => "DEL"
  | .store .lPush => "LPUSH"
  | .store .rPush => "RPUSH"
  | .store .sMove => "SMOVE"
  | .store .rename => "RENAME"
  | .store .xGroup => "XGROUP"
  | .store .pfMerge => "PFMERGE"
  | .store .copy => "COPY"
  | .store .enqueue => "ENQUEUE"

def all : List RecordWord :=
  (List.range 36).map (fun i => .key (.ofNat i)) ++ (List.range 10).map (fun i => .store (.ofNat i))

/-- The case that an upper-cased word selects. -/
def parse (word : Bytes) : Option RecordWord := all.find? (fun w => word = bytes w.text)

theorem parse_text (w : RecordWord) : parse (bytes w.text) = some w := by
  rcases w with w | w <;> cases w <;> rfl

end RecordWord

/-! ## What a record does -/

/-- The expiry of a `SETABS` or `MSETABS` record. -/
def absTime (ns : Int) : Time := if 0 < ns then ns else zeroTime

/-- The scores and members of a `ZADD` record. -/
def scannedMembers (R : Runtime) (pairs : List (Bytes × Bytes)) : List ZMember :=
  pairs.map (fun p => ⟨p.2, R.sscanFloat p.1⟩)

/-- The time to live of a `SET` record, its number read by `number`. -/
def recordTTL (number : Bytes → Int) (rest : List Bytes) : Duration :=
  if 5 ≤ rest.length + 2 then
    if toUpper (arg rest 3) = bytes "PX" then
      Cmd.duration (number (arg rest 4)) millisecond
    else if toUpper (arg rest 3) = bytes "EX" then Cmd.duration (number (arg rest 4)) second
    else 0
  else 0

/-- What a record does to its key, given the arguments after the key. A record with a wrong
number of arguments does nothing. -/
def KeyRecordWord.run (number : Bytes → Int) (R : Runtime) (now : Time) (w : KeyRecordWord)
    (rest : List Bytes) (c : Cell) : Cell :=
  let n := rest.length + 2
  match w with
  | .setAbs =>
    if n = 4 then c.setAbsolute (arg rest 2) (absTime (sscanInt (arg rest 3))) else c
  | .set => if 3 ≤ n then c.set now (arg rest 2) (recordTTL number rest) else c
  | .hSet => if 4 ≤ n ∧ n % 2 = 0 then (c.hSet now (pairUp rest)).2 else c
  | .hDel => if 2 < n then (c.hDel now rest).2 else c
  | .lPop => if n = 2 then (c.popList now true).2 else c
  | .rPop => if n = 2 then (c.popList now false).2 else c
  | .lSet => if n = 4 then (c.lSet now (parseIntValue (arg rest 2)) (arg rest 3)).2 else c
  | .lInsert =>
    if n = 5 then
      (c.lInsert now (equalFold (arg rest 2) "BEFORE") (arg rest 3) (arg rest 4)).2
    else c
  | .sAdd => if 2 < n then (c.sAdd now rest).2 else c
  | .sRem => if 2 < n then (c.sRem now rest).2 else c
  | .lRem => if n = 4 then (c.lRem now (parseIntValue (arg rest 2)) (arg rest 3)).2 else c
  | .zAdd =>
    if 4 ≤ n ∧ n % 2 = 0 then (c.zAdd now (scannedMembers R (pairUp rest))).2 else c
  | .zRem => if 2 < n then (c.zRem now rest).2 else c
  | .incr => if n = 2 then (c.incrBy now 1).2 else c
  | .incrBy => if n = 3 then (c.incrBy now (sscanInt (arg rest 2))).2 else c
  | .decrBy => if n = 3 then (c.decrBy now (sscanInt (arg rest 2))).2 else c
  | .decr => if n = 2 then (c.incrBy now (-1)).2 else c
  | .incrByFloat =>
    if n = 3 then (c.incrByFloat R now (R.sscanFloat (arg rest 2))).2 else c
  | .hIncrBy => if n = 4 then (c.hIncrBy now (arg rest 2) (sscanInt (arg rest 3))).2 else c
  | .append => if n = 3 then (c.append now (arg rest 2)).2 else c
  | .expire =>
    if n = 3 then (c.expire now (Cmd.duration (sscanInt (arg rest 2)) second)).2 else c
  | .expireAtAbs =>
    if n = 3 then
      let ns := sscanInt (arg rest 2)
      (c.expireAt now (if ns = 0 then zeroTime else ns)).2
    else c
  | .xAdd => if 5 ≤ n then (c.xAdd now (arg rest 2) (rest.drop 1)).2 else c
  | .xGroupDeliver =>
    if 6 ≤ n then
      (c.xGroupDeliver now (arg rest 2) (arg rest 3) (rest.drop 3) (sscanInt (arg rest 4))).2
    else c
  | .xAck => if 4 ≤ n then (c.xAck now (arg rest 2) (rest.drop 1)).2 else c
  | .pfAdd => (c.pfAdd now rest).2
  | .setDelayed =>
    if 4 ≤ n then
      let ttl := if 6 ≤ n ∧ equalFold (arg rest 4) "EX" then
        Cmd.duration (sscanInt (arg rest 5)) second else 0
      c.setDelayed now (arg rest 2) (Cmd.duration (sscanInt (arg rest 3)) second) ttl
    else c
  | .qAck => if n = 3 then (c.qAck (arg rest 2)).2 else c
  | .qNack => if n = 3 then (c.qNack now (arg rest 2)).2 else c
  | .jsonSet => if n = 4 then (c.jsonSet R now (arg rest 2) (arg rest 3)).2 else c
  | .jsonDel => (c.jsonDel now (Cmd.jsonPath rest)).2
  | .jsonNumIncrBy =>
    if n = 4 then
      (c.jsonNumIncrBy R now (arg rest 2) ((R.parseFloat (arg rest 3)).getD F64.zero)).2
    else c
  | .jsonArrAppend =>
    if 4 ≤ n then (c.jsonArrAppend R now (arg rest 2) (rest.drop 1)).2 else c
  | .tag => if 3 ≤ n then (c.tagSet now (rest.filterMap Cmd.splitEquals)).2 else c
  | .tagDel => if 3 ≤ n then (c.tagDel rest).2 else c
  | .tsAdd =>
    if 4 ≤ n then
      let ts := if arg rest 2 = bytes "*" then 0 else sscanInt (arg rest 2)
      (c.tsAdd now ts (R.sscanFloat (arg rest 3)) (Cmd.parseLabels (rest.drop 2))).2
    else c

/-- The keys, values and expiries of an `MSETABS` record. -/
def tripleUp : List Bytes → List (Bytes × Bytes × Bytes)
  | a :: b :: c :: rest => (a, b, c) :: tripleUp rest
  | _ => []

/-- What a record about several keys does, given all its arguments. -/
def StoreRecordWord.run (now : Time) (w : StoreRecordWord) (args : List Bytes) (s : Store) :
    Store :=
  let n := args.length
  let key := args.getD 1 []
  match w with
  | .mSetAbs =>
    if 4 ≤ n ∧ (n - 1) % 3 = 0 then
      (tripleUp args.tail).foldl (fun s p =>
        s.modify p.1 (Cell.setAbsolute p.2.1 (absTime (sscanInt p.2.2)))) s
    else s
  | .del => if 1 < n then (Store.del now args.tail s).2 else s
  | .lPush => if 2 < n then (s.pushList now key true (args.drop 2)).2 else s
  | .rPush => if 2 < n then (s.pushList now key false (args.drop 2)).2 else s
  | .sMove => if n = 4 then (s.sMove now key (args.getD 2 []) (args.getD 3 [])).2 else s
  | .rename => if n = 3 then (s.rename now key (args.getD 2 [])).2 else s
  | .xGroup =>
    if 5 ≤ n ∧ equalFold key "CREATE" then
      let mkstream : Bool := n = 6 && equalFold (args.getD 5 []) "MKSTREAM"
      s.modify (args.getD 2 []) (fun c =>
        (c.xGroupCreate now (args.getD 3 []) (args.getD 4 []) mkstream).2)
    else s
  | .pfMerge => if 2 ≤ n then s.pfMerge now key (args.drop 2) else s
  | .copy =>
    if 3 ≤ n then
      (s.copy now key (args.getD 2 []) ((args.drop 3).any (fun a => equalFold a "REPLACE"))).2
    else s
  | .enqueue =>
    if 3 ≤ n then
      let delay := if 5 ≤ n ∧ equalFold (args.getD 3 []) "DELAY" then
        Cmd.duration (sscanInt (args.getD 4 [])) second else 0
      (s.enqueue now key (args.getD 2 []) delay).2
    else s

/-- A record of the table, interpreted. -/
def RecordWord.run (number : Bytes → Int) (R : Runtime) (now : Time) (args : List Bytes)
    (s : Store) : RecordWord → Store
  | .key w =>
    match args with
    | _ :: k :: rest => s.modify k (w.run number R now rest)
    | _ => s
  | .store w => w.run now args s

/-- The word of a record. -/
def RecordWord.ofArgs (args : List Bytes) : Option RecordWord :=
  RecordWord.parse (toUpper (args.headD []))

/-- One round of `ReplayAOF`. -/
def replayRecord (R : Runtime) (now : Time) (s : Store) (args : Record) : Store :=
  match RecordWord.ofArgs args with
  | none => s
  | some w => w.run sscanInt R now args s

/-- `ReplayAOF` on the records of a file. -/
def replay (R : Runtime) (now : Time) (records : List Record) (s : Store) : Store :=
  records.foldl (replayRecord R now) s

/-- `applyReplicatedCommand`; `SMOVE` and `LREM` are missing from its table. -/
def applyReplicatedCommand (R : Runtime) (now : Time) (args : List Bytes) (s : Store) : Store :=
  match RecordWord.ofArgs args with
  | none => s
  | some (.store .sMove) => s
  | some (.key .lRem) => s
  | some w => w.run parseIntValue R now args s

end Vole.Server
