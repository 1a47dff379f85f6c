import Vole.Server.Command

/-!
# Commands on string keys and on expiry

The cases of `Server.exec` for strings, bitmaps and the expiry of a key, and those that
describe a key of any type. Several of them do not log their arguments but what came out
of them: a string with an absolute expiry (`SETABS`) or an absolute expiry alone
(`EXPIREATABS`).
-/

namespace Vole.Server.Cmd

open Go Outcome

/-! ## Times -/

/-- `time.Duration(n) * unit` -/
def duration (n : Int) (unit : Duration) : Duration := wrap64 (n * unit)

/-- The instant after a time to live, the zero time if there is none. -/
def expiryAfter (now : Time) (ttl : Duration) : Time := if 0 < ttl then now + ttl else zeroTime

/-- `strconv.FormatInt(t.UnixNano(), 10)` -/
def nanoText (t : Time) : Bytes := formatInt (unixNano t)

/-- The `SETABS` record of `SET`. -/
def setAbs (value : Bytes) (expireAt : Time) : KeyRecord :=
  (bytes "SETABS", [value, if isZero expireAt then bytes "0" else nanoText expireAt])

/-- An `EXPIREATABS` record. -/
def expireAtAbs (at_ : Bytes) : KeyRecord := (bytes "EXPIREATABS", [at_])

/-! ## Strings -/

def get : KeyCmd := .of "GET" (· = 2) (fun env _ _ c =>
  answer c (.ok (bulkOrNull (c.get env.now))))

/-- The options of `SET`. -/
structure SetOptions where
  ttl : Duration
  delay : Duration
  useNX : Bool
  useXX : Bool

/-- The loop of `set` over its options. -/
def parseSetOptions (R : Runtime) : SetOptions → List Bytes → Except Bytes SetOptions
  | o, [] =>
    if o.useNX && o.useXX then .error (bytes "NX and XX options are mutually exclusive")
    else .ok o
  | o, opt :: rest =>
    let opt := toUpper opt
    if opt = bytes "NX" then parseSetOptions R { o with useNX := true } rest
    else if opt = bytes "XX" then parseSetOptions R { o with useXX := true } rest
    else if opt = bytes "EX" ∨ opt = bytes "PX" ∨ opt = bytes "AFTER" then
      match rest with
      | [] => .error (wrongArgs (bytes "SET"))
      | number :: rest =>
        match parseInt64 R number with
        | .error e => .error e
        | .ok n =>
          if opt = bytes "EX" then parseSetOptions R { o with ttl := duration n second } rest
          else if opt = bytes "PX" then
            parseSetOptions R { o with ttl := duration n millisecond } rest
          else parseSetOptions R { o with delay := duration n second } rest
    else .error (bytes "unsupported SET option")

def setOptions (R : Runtime) (rest : List Bytes) : Except Bytes SetOptions :=
  parseSetOptions R ⟨0, 0, false, false⟩ (rest.drop 1)

/-- The `SETDELAYED` record of `SET ... AFTER`, in whole seconds. -/
def setDelayedRecord (value : Bytes) (delay ttl : Duration) : KeyRecord :=
  (bytes "SETDELAYED", [value, formatInt (delay.tdiv second)]
    ++ (if 0 < ttl then [bytes "EX", formatInt (ttl.tdiv second)] else []))

/-- `set` behind its checks. -/
def setRun (now : Time) (value : Bytes) (o : SetOptions) (c : Cell) : Outcome :=
  let record := setAbs value (expiryAfter now o.ttl)
  if 0 < o.delay then
    ⟨okReply, c.setDelayed now value o.delay o.ttl, [setDelayedRecord value o.delay o.ttl]⟩
  else if o.useNX then
    match c.setNX now value o.ttl with
    | (false, c) => answer c (.ok [.null])
    | (true, c) => ⟨okReply, c, [record]⟩
  else if o.useXX then
    match c.setXX now value o.ttl with
    | (false, c) => answer c (.ok [.null])
    | (true, c) => ⟨okReply, c, [record]⟩
  else ⟨okReply, c.setAbsolute value (expiryAfter now o.ttl), [record]⟩

def set : KeyCmd where
  name _ := bytes "SET"
  arity n := 3 ≤ n
  check R rest :=
    match setOptions R rest with
    | .error e => some e
    | .ok _ => none
  run env _ rest c := attempt c (setOptions env.R rest) (fun o =>
    setRun env.now (arg rest 2) o c)

def setNX : KeyCmd := .of "SETNX" (· = 3) (fun env _ rest c =>
  match c.setNX env.now (arg rest 2) 0 with
  | (true, c) => ⟨intReply 1, c, [(bytes "SETABS", [arg rest 2, bytes "0"])]⟩
  | (false, c) => answer c (intReply 0))

/-- `SETEX` and `PSETEX`. -/
def setExpiring (name : String) (unit : Duration) : KeyCmd := .of name (· = 4) (fun env _ rest c =>
  attempt c (parseInt64 env.R (arg rest 2)) (fun n =>
    if n ≤ 0 then fail c (bytes "invalid expire time in " ++ bytes name)
    else
      let expireAt := env.now + duration n unit
      ⟨okReply, c.setAbsolute (arg rest 3) expireAt,
        [(bytes "SETABS", [arg rest 3, nanoText expireAt])]⟩))

def setEX : KeyCmd := setExpiring "SETEX" second

def pSetEX : KeyCmd := setExpiring "PSETEX" millisecond

def incr : KeyCmd := .of "INCR" (· = 2) (fun env word rest c =>
  match c.get env.now with
  | some existing =>
    if (parseInt existing).isNone then fail c (bytes "value is not an integer")
    else logged env.R (word, rest) (c.incrBy env.now 1) (fun n => [.int n])
  | none => logged env.R (word, rest) (c.incrBy env.now 1) (fun n => [.int n]))

def incrBy : KeyCmd := .of "INCRBY" (· = 3) (fun env word rest c =>
  attempt c (parseInt64 env.R (arg rest 2)) (fun delta =>
    logged env.R (word, rest) (c.incrBy env.now delta) (fun n => [.int n])))

def decrBy : KeyCmd := .of "DECRBY" (· = 3) (fun env word rest c =>
  attempt c (parseInt64 env.R (arg rest 2)) (fun delta =>
    logged env.R (word, rest) (c.decrBy env.now delta) (fun n => [.int n])))

def decr : KeyCmd := .of "DECR" (· = 2) (fun env word rest c =>
  logged env.R (word, rest) (c.incrBy env.now (-1)) (fun n => [.int n]))

def incrByFloat : KeyCmd := .of "INCRBYFLOAT" (· = 3) (fun env word rest c =>
  attempt c (parseFloat64 env.R (arg rest 2)) (fun delta =>
    logged env.R (word, rest) (c.incrByFloat env.R env.now delta)
      (fun x => [.bulk (env.R.formatFloat x)])))

def strlen : KeyCmd := .of "STRLEN" (· = 2) (fun env _ _ c =>
  query env.R c (c.strlen env.now) (fun n => [.int n]))

def append : KeyCmd := .of "APPEND" (· = 3) (fun env _ rest c =>
  logging env.R (c.append env.now (arg rest 2)) (fun n => [.int n])
    (fun _ => [(bytes "APPEND", [arg rest 2])]))

def getDel : KeyCmd := .of "GETDEL" (· = 2) (fun env _ _ c =>
  match c.getDel env.now with
  | (none, c) => answer c (.ok [.null])
  | (some v, c) => ⟨.ok [.bulk v], c, [(bytes "DEL", [])]⟩)

def getSet : KeyCmd := .of "GETSET" (· = 3) (fun env _ rest c =>
  logging env.R (c.getSet env.now (arg rest 2)) bulkOrNull
    (fun _ => [(bytes "SETABS", [arg rest 2, bytes "0"])]))

/-- The loop of `GETEX` over its options: the time to live and whether to persist. -/
def parseGetEx (R : Runtime) : Duration × Bool → List Bytes → Except Bytes (Duration × Bool)
  | o, [] => .ok o
  | o, opt :: rest =>
    let opt := toUpper opt
    if opt = bytes "EX" ∨ opt = bytes "PX" then
      match rest with
      | [] => .error (wrongArgs (bytes "GETEX"))
      | number :: rest =>
        match parseInt64 R number with
        | .error e => .error e
        | .ok n =>
          parseGetEx R (duration n (if opt = bytes "EX" then second else millisecond), o.2) rest
    else if opt = bytes "PERSIST" then parseGetEx R (o.1, true) rest
    else .error (wrongArgs (bytes "GETEX"))

/-- `GETEX` behind its options. -/
def getExRun (now : Time) (ttl : Duration) (persist : Bool) (c : Cell) : Outcome :=
  match c.getEx now ttl persist with
  | (none, c) => answer c (.ok [.null])
  | (some v, c) =>
    ⟨.ok [.bulk v], c,
      if persist then [expireAtAbs (bytes "0")]
      else if 0 < ttl then [expireAtAbs (nanoText (now + ttl))] else []⟩

def getEx : KeyCmd := .of "GETEX" (2 ≤ ·) (fun env _ rest c =>
  attempt c (parseGetEx env.R (0, false) rest) (fun o => getExRun env.now o.1 o.2 c))

/-- The `SETABS` record of a string that was changed in place: its expiry is written from
the milliseconds it has left. -/
def setAbsLeft (now : Time) (c : Cell) : KeyRecord :=
  let pttl := c.pttl now
  (bytes "SETABS", [(c.get now).getD [],
    if 0 < pttl then nanoText (now + duration pttl millisecond) else bytes "0"])

def setRange : KeyCmd := .of "SETRANGE" (· = 4) (fun env _ rest c =>
  attempt c (atoi env.R (arg rest 2)) (fun offset =>
    let r := c.setRange env.now offset (arg rest 3)
    logging env.R r (fun n => [.int n]) (fun _ => [setAbsLeft env.now r.2])))

/-- `GETRANGE` and its alias `SUBSTR`. -/
def getRangeAs (name : String) : KeyCmd := .of name (· = 4) (fun env _ rest c =>
  attempt c (atoi env.R (arg rest 2)) (fun start =>
    attempt c (atoi env.R (arg rest 3)) (fun stop =>
      query env.R c (c.getRange env.now start stop) (fun v => [.bulk v]))))

def getRange : KeyCmd := getRangeAs "GETRANGE"

def substr : KeyCmd := getRangeAs "SUBSTR"

/-! ## Bitmaps -/

def setBit : KeyCmd := .of "SETBIT" (· = 4) (fun env _ rest c =>
  attempt c (parseInt64 env.R (arg rest 2)) (fun offset =>
    attempt c (atoi env.R (arg rest 3)) (fun val =>
      let r := c.setBit env.now offset val
      logging env.R r (fun old => [.int old]) (fun _ => [setAbsLeft env.now r.2]))))

def getBit : KeyCmd := .of "GETBIT" (· = 3) (fun env _ rest c =>
  attempt c (parseInt64 env.R (arg rest 2)) (fun offset =>
    query env.R c (c.getBit env.now offset) (fun val => [.int val])))

def bitCount : KeyCmd := .of "BITCOUNT" (fun n => n = 2 ∨ n = 4) (fun env _ rest c =>
  if rest.length + 2 = 4 then
    attempt c (atoi env.R (arg rest 2)) (fun start =>
      attempt c (atoi env.R (arg rest 3)) (fun stop =>
        query env.R c (c.bitCount env.now start stop true) (fun n => [.int n])))
  else query env.R c (c.bitCount env.now 0 0 false) (fun n => [.int n]))

def bitPos : KeyCmd := .of "BITPOS" (fun n => 3 ≤ n ∧ n ≤ 5) (fun env _ rest c =>
  let n := rest.length + 2
  attempt c (atoi env.R (arg rest 2)) (fun bit =>
    attempt c (if 4 ≤ n then atoi env.R (arg rest 3) else .ok 0) (fun start =>
      attempt c (if n = 5 then atoi env.R (arg rest 4) else .ok (if 4 ≤ n then -1 else 0)) (fun stop =>
        query env.R c (c.bitPos env.now bit start stop (4 ≤ n)) (fun pos => [.int pos])))))

/-! ## Expiry -/

/-- `EXPIRE` and `PEXPIRE`. -/
def expireIn (name : String) (unit : Duration) : KeyCmd := .of name (· = 3) (fun env _ rest c =>
  attempt c (parseInt64 env.R (arg rest 2)) (fun n =>
    if c.ttl env.now = -2 then answer c (intReply 0)
    else
      let at_ := env.now + duration n unit
      let r := c.expireAt env.now at_
      ⟨boolReply r.1, r.2, [expireAtAbs (nanoText at_)]⟩))

def expire : KeyCmd := expireIn "EXPIRE" second

def pExpire : KeyCmd := expireIn "PEXPIRE" millisecond

def pExpireAt : KeyCmd := .of "PEXPIREAT" (· = 3) (fun env _ rest c =>
  attempt c (parseInt64 env.R (arg rest 2)) (fun ms =>
    let at_ : Time := duration ms millisecond
    let r := c.expireAt env.now at_
    ⟨boolReply r.1, r.2, [expireAtAbs (nanoText at_)]⟩))

def persist : KeyCmd := .of "PERSIST" (· = 2) (fun env _ _ c =>
  match c.persist env.now with
  | (false, c) => answer c (intReply 0)
  | (true, c) => ⟨intReply 1, c, [expireAtAbs (bytes "0")]⟩)

/-- `TTL`, `PTTL`, `EXPIRETIME` and `PEXPIRETIME`. -/
def expiryOf (name : String) (read : Entry → Time → Int) : KeyCmd := .of name (· = 2)
  (fun env _ _ c => answer c (intReply (read c.toEntry env.now)))

def ttl : KeyCmd := expiryOf "TTL" Entry.ttl

def pttl : KeyCmd := expiryOf "PTTL" Entry.pttl

def expireTime : KeyCmd := expiryOf "EXPIRETIME" Entry.expireTime

def pExpireTime : KeyCmd := expiryOf "PEXPIRETIME" Entry.pExpireTime

/-! ## Delayed visibility and rate limits -/

/-- The time to live of `SETDELAYED`; without `EX` there is none. -/
def delayedTTL (R : Runtime) (rest : List Bytes) : Except Bytes Duration :=
  if 6 ≤ rest.length + 2 ∧ equalFold (arg rest 4) "EX" then
    (parseInt64 R (arg rest 5)).map (duration · second)
  else .ok 0

def setDelayed : KeyCmd := .of "SETDELAYED" (4 ≤ ·) (fun env word rest c =>
  attempt c (parseInt64 env.R (arg rest 3)) (fun delaySec =>
    attempt c (delayedTTL env.R rest) (fun ttl =>
      ⟨okReply, c.setDelayed env.now (arg rest 2) (duration delaySec second) ttl,
        [(word, rest)]⟩)))

def rateLimit : KeyCmd := .of "RATELIMIT" (· = 4) (fun env _ rest c =>
  attempt c (parseInt64 env.R (arg rest 2)) (fun max =>
    attempt c (parseInt64 env.R (arg rest 3)) (fun windowSec =>
      let r := c.rateLimit env.now max (duration windowSec second)
      ⟨replyOf env.R r.1 (fun x => [.arrayLen 4, .int (if x.allowed then 1 else 0),
        .int x.remaining, .int x.retryAfterMs, .int x.resetAtMs]), r.2, []⟩)))

def rateLimitPeek : KeyCmd := .of "RATELIMIT.PEEK" (· = 2) (fun env _ _ c =>
  let r := c.rateLimitPeek env.now
  answer c (.ok [.arrayLen 2, .int r.1, .int r.2]))

def rateLimitReset : KeyCmd := .of "RATELIMIT.RESET" (· = 2) (fun _ _ _ c =>
  let r := c.rateLimitReset
  ⟨boolReply r.1, r.2, []⟩)

/-! ## Keys of any type -/

def type : KeyCmd := .of "TYPE" (· = 2) (fun env _ _ c =>
  answer c (.ok [.simple (c.type env.now)]))

def dump : KeyCmd := .of "DUMP" (· = 2) (fun env _ _ c =>
  answer c (.ok (bulkOrNull (c.dumpKey env.R env.now env.hint))))

/-- What `OBJECT ENCODING` says about each type. -/
def encodingOf (typ : Bytes) : Option Bytes :=
  if typ = bytes "string" then some (bytes "embstr")
  else if typ = bytes "hash" ∨ typ = bytes "set" then some (bytes "hashtable")
  else if typ = bytes "list" then some (bytes "listpack")
  else if typ = bytes "zset" then some (bytes "skiplist")
  else if typ = bytes "stream" then some (bytes "stream")
  else if typ = bytes "json" then some (bytes "json")
  else none

end Vole.Server.Cmd
