import Vole.Server.Command
import Vole.Store.Ops

/-!
# Commands on hashes, lists, sets, sorted sets and cardinality estimates

The cases of `Server.exec` that work on one key of these types. The commands that take
elements away at random or from an end log the elements they took; those that compute a
score log the score.
-/

namespace Vole.Server.Cmd

open Go Outcome

/-- The refusal of a key that holds a value of another type than `own`: before a command
that adds to the key (`typ != "none" && typ != own`). -/
def addGuard (now : Time) (own : String) (c : Cell) (k : Outcome) : Outcome :=
  if c.type now ≠ bytes "none" ∧ c.type now ≠ bytes own then fail c (bytes "wrong type") else k

theorem addGuard_elim {P : Outcome → Prop} {now : Time} {own : String} {c : Cell} {k : Outcome}
    (hfail : ∀ e, P (fail c e)) (h : P k) : P (addGuard now own c k) :=
  iteInduction (fun _ => hfail _) (fun _ => h)

/-- The guard of a command that takes from a key: an absent key is answered at once. -/
def takeGuard (now : Time) (own : String) (absent : Reply) (c : Cell) (k : Outcome) : Outcome :=
  if c.type now = bytes "none" then answer c absent
  else if c.type now ≠ bytes own then fail c (bytes "wrong type")
  else k

variable (R : Runtime)

/-- The optional count of `SRANDMEMBER`, `SPOP`, `HRANDFIELD`, `ZPOPMIN` and `ZPOPMAX`. -/
def optionalCount (rest : List Bytes) : Except Bytes Int :=
  if rest.length + 2 = 3 then atoi R (arg rest 2) else .ok 1

/-- The reply of those commands: an array if a count was given, else the first element. -/
def writePicks (rest : List Bytes) (picks : List Bytes) : List Out :=
  if rest.length + 2 = 3 then writeBulkStrings picks else bulkOrNull picks.head?

/-! ## Hashes -/

/-- The map that `Validate` is given. -/
def fieldMap (pairs : List (Bytes × Bytes)) : GoMap Bytes :=
  pairs.foldl (fun m p => m.insert p.1 p.2) ∅

/-- `hset` -/
def hSet : KeyCmd := .of "HSET" (fun n => 4 ≤ n ∧ n % 2 = 0) (fun env _ rest c =>
  let pairs := pairUp rest
  match env.validate (fieldMap pairs) with
  | some e => fail c e
  | none => addGuard env.now "hash" c
      (logged env.R (bytes "HSET", pairs.flatMap (fun p => [p.1, p.2])) (c.hSet env.now pairs)
        (fun added => [.int added])))

def hGet : KeyCmd := .of "HGET" (· = 3) (fun env _ rest c =>
  query env.R c (c.hGet env.now (arg rest 2)) bulkOrNull)

def hGetAll : KeyCmd := .of "HGETALL" (· = 2) (fun env _ _ c =>
  query env.R c (c.hGetAll env.now) writeHashPairs)

/-- `hdel` -/
def hDel : KeyCmd := .of "HDEL" (3 ≤ ·) (fun env word rest c =>
  takeGuard env.now "hash" (intReply 0) c
    (logged env.R (word, rest) (c.hDel env.now rest) (fun n => [.int n])))

def hIncrBy : KeyCmd := .of "HINCRBY" (· = 4) (fun env word rest c =>
  attempt c (parseInt64 env.R (arg rest 3)) (fun delta =>
    match env.validate (fieldMap [(arg rest 2, arg rest 3)]) with
    | some e => fail c e
    | none => logged env.R (word, rest) (c.hIncrBy env.now (arg rest 2) delta)
        (fun n => [.int n])))

def hSetNX : KeyCmd := .of "HSETNX" (· = 4) (fun env _ rest c =>
  match env.validate (fieldMap [(arg rest 2, arg rest 3)]) with
  | some e => fail c e
  | none => logging env.R (c.hSetNX env.now (arg rest 2) (arg rest 3))
      (fun ok => [.int (if ok then 1 else 0)])
      (fun ok => if ok then [(bytes "HSET", [arg rest 2, arg rest 3])] else []))

def hLen : KeyCmd := .of "HLEN" (· = 2) (fun env _ _ c =>
  query env.R c (c.hLen env.now) (fun n => [.int n]))

def hExists : KeyCmd := .of "HEXISTS" (· = 3) (fun env _ rest c =>
  query env.R c (c.hExists env.now (arg rest 2)) (fun b => [.int (if b then 1 else 0)]))

def hVals : KeyCmd := .of "HVALS" (· = 2) (fun env _ _ c =>
  query env.R c (c.hVals env.now) writeBulkStrings)

def hKeys : KeyCmd := .of "HKEYS" (· = 2) (fun env _ _ c =>
  query env.R c (c.hKeys env.now) writeBulkStrings)

def hRandField : KeyCmd := .of "HRANDFIELD" (fun n => 2 ≤ n ∧ n ≤ 3) (fun env _ rest c =>
  attempt c (optionalCount env.R rest) (fun count =>
    query env.R c (c.hRandField env.now count env.hint env.draws) (writePicks rest)))

/-! ## Lists -/

/-- `listPop` -/
def listPop (left : Bool) : KeyCmd where
  name word := word
  arity n := n = 2
  check _ _ := none
  run env word rest c := takeGuard env.now "list" (.ok [.null]) c
    (logged env.R (word, rest) (c.popList env.now left) bulkOrNull)

def lPop : KeyCmd := listPop true

def rPop : KeyCmd := listPop false

/-- `lrange` -/
def lRange : KeyCmd := .of "LRANGE" (· = 4) (fun env _ rest c =>
  attempt c (atoi env.R (arg rest 2)) (fun start =>
    attempt c (atoi env.R (arg rest 3)) (fun stop =>
      query env.R c (c.lRange env.now start stop) writeBulkStrings)))

def lIndex : KeyCmd := .of "LINDEX" (· = 3) (fun env _ rest c =>
  attempt c (atoi env.R (arg rest 2)) (fun index =>
    query env.R c (c.lIndex env.now index) bulkOrNull))

def lSet : KeyCmd := .of "LSET" (· = 4) (fun env word rest c =>
  attempt c (atoi env.R (arg rest 2)) (fun index =>
    logged env.R (word, rest) (c.lSet env.now index (arg rest 3))
      (fun _ => [.simple (bytes "OK")])))

def lInsert : KeyCmd := .of "LINSERT" (· = 5) (fun env word rest c =>
  let before := equalFold (arg rest 2) "BEFORE"
  if !before && !equalFold (arg rest 2) "AFTER" then fail c (wrongArgs (bytes "LINSERT"))
  else logged env.R (word, rest) (c.lInsert env.now before (arg rest 3) (arg rest 4))
    (fun n => [.int n]))

def lPos : KeyCmd := .of "LPOS" (· = 3) (fun env _ rest c =>
  query env.R c (c.lPos env.now (arg rest 2)) (fun pos => intOrNull (pos.map (fun n => (n : Int)))))

def lRem : KeyCmd := .of "LREM" (· = 4) (fun env word rest c =>
  attempt c (atoi env.R (arg rest 2)) (fun count =>
    logged env.R (word, rest) (c.lRem env.now count (arg rest 3)) (fun n => [.int n])))

def lLen : KeyCmd := .of "LLEN" (· = 2) (fun env _ _ c =>
  query env.R c (c.lLen env.now) (fun n => [.int n]))

/-! ## Sets -/

/-- `sadd` -/
def sAdd : KeyCmd := .of "SADD" (3 ≤ ·) (fun env word rest c =>
  addGuard env.now "set" c
    (logged env.R (word, rest) (c.sAdd env.now rest) (fun n => [.int n])))

/-- `srem` -/
def sRem : KeyCmd := .of "SREM" (3 ≤ ·) (fun env word rest c =>
  takeGuard env.now "set" (intReply 0) c
    (logged env.R (word, rest) (c.sRem env.now rest) (fun n => [.int n])))

def sMembers : KeyCmd := .of "SMEMBERS" (· = 2) (fun env _ _ c =>
  query env.R c (c.sMembers env.now) writeBulkStrings)

def sIsMember : KeyCmd := .of "SISMEMBER" (· = 3) (fun env _ rest c =>
  query env.R c (c.sIsMember env.now (arg rest 2)) (fun b => [.int (if b then 1 else 0)]))

def sCard : KeyCmd := .of "SCARD" (· = 2) (fun env _ _ c =>
  query env.R c (c.sCard env.now) (fun n => [.int n]))

def sRandMember : KeyCmd := .of "SRANDMEMBER" (fun n => 2 ≤ n ∧ n ≤ 3) (fun env _ rest c =>
  attempt c (optionalCount env.R rest) (fun count =>
    query env.R c (c.sRandMember env.now count env.hint env.draws) (writePicks rest)))

def sPop : KeyCmd := .of "SPOP" (fun n => 2 ≤ n ∧ n ≤ 3) (fun env _ rest c =>
  attempt c (optionalCount env.R rest) (fun count =>
    logging env.R (c.sPop env.now count env.hint) (writePicks rest)
      (fun members => if members = [] then [] else [(bytes "SREM", members)])))

/-! ## Sorted sets -/

/-- The scores and members of `ZADD`. -/
def parseMembers (R : Runtime) : List (Bytes × Bytes) → Except Bytes (List ZMember)
  | [] => .ok []
  | (score, member) :: rest =>
    match parseFloat64 R score with
    | .error e => .error e
    | .ok x => (parseMembers R rest).map (⟨member, x⟩ :: ·)

/-- `zadd` -/
def zAdd : KeyCmd := .of "ZADD" (fun n => 4 ≤ n ∧ n % 2 = 0) (fun env word rest c =>
  attempt c (parseMembers env.R (pairUp rest)) (fun members =>
    addGuard env.now "zset" c
      (logged env.R (word, rest) (c.zAdd env.now members) (fun n => [.int n]))))

/-- `zrange`, and `ZREVRANGE` -/
def zRangeAs (name : String) (read : Entry → Time → Int → Int → Except Err (List ZMember)) :
    KeyCmd := .of name (fun n => n = 4 ∨ n = 5) (fun env _ rest c =>
  attempt c (atoi env.R (arg rest 2)) (fun start =>
    attempt c (atoi env.R (arg rest 3)) (fun stop =>
      let withScores : Bool := rest.length + 2 = 5
      if withScores && !equalFold (arg rest 4) "WITHSCORES" then fail c (wrongArgs (bytes name))
      else query env.R c (read c.toEntry env.now start stop) (writeMembers env.R withScores))))

def zRange : KeyCmd := zRangeAs "ZRANGE" Entry.zRange

def zRevRange : KeyCmd := zRangeAs "ZREVRANGE" Entry.zRevRange

/-- `zrem` -/
def zRem : KeyCmd := .of "ZREM" (3 ≤ ·) (fun env word rest c =>
  takeGuard env.now "zset" (intReply 0) c
    (logged env.R (word, rest) (c.zRem env.now rest) (fun n => [.int n])))

def zScore : KeyCmd := .of "ZSCORE" (· = 3) (fun env _ rest c =>
  query env.R c (c.zScore env.now (arg rest 2)) (fun x => bulkOrNull (x.map env.R.formatFloat)))

def zCard : KeyCmd := .of "ZCARD" (· = 2) (fun env _ _ c =>
  query env.R c (c.zCard env.now) (fun n => [.int n]))

/-- One end of a score range; a leading parenthesis excludes the score itself. -/
def parseScoreEnd (up : Bool) (text : Bytes) : Except Bytes F64 :=
  if !up && text = bytes "+inf" then .ok F64.posInf
  else if up && text = bytes "-inf" then .ok F64.negInf
  else
    match text with
    | 40 :: rest => (parseFloat64 R rest).map (R.nextAfter up)
    | _ => parseFloat64 R text

/-- `parseScoreRange` -/
def parseScoreRange (minStr maxStr : Bytes) : Except Bytes (F64 × F64) :=
  match parseScoreEnd R true minStr with
  | .error e => .error e
  | .ok min => (parseScoreEnd R false maxStr).map (fun max => (min, max))

/-- What the option loop of `ZRANGEBYSCORE` and `ZRANGEBYLEX` collects. -/
structure RangeOptions where
  withScores : Bool
  offset : Int
  count : Int

/-- That loop; unknown words are skipped. -/
def parseRangeOptions (R : Runtime) (name : String) :
    RangeOptions → List Bytes → Except Bytes RangeOptions
  | o, [] => .ok o
  | o, opt :: rest =>
    let opt := toUpper opt
    if opt = bytes "WITHSCORES" then parseRangeOptions R name { o with withScores := true } rest
    else if opt = bytes "LIMIT" then
      match rest with
      | offset :: count :: rest =>
        match atoi R offset, atoi R count with
        | .error e, _ => .error e
        | .ok _, .error e => .error e
        | .ok offset, .ok count => parseRangeOptions R name ⟨o.withScores, offset, count⟩ rest
      | _ => .error (wrongArgs (bytes name))
    else parseRangeOptions R name o rest

def zRangeByScore : KeyCmd := .of "ZRANGEBYSCORE" (4 ≤ ·) (fun env _ rest c =>
  attempt c (parseScoreRange env.R (arg rest 2) (arg rest 3)) (fun range =>
    attempt c (parseRangeOptions env.R "ZRANGEBYSCORE" ⟨false, 0, 0⟩ (rest.drop 2)) (fun o =>
      query env.R c (c.zRangeByScore env.now range.1 range.2 o.offset o.count)
        (writeMembers env.R o.withScores))))

def zRangeByLex : KeyCmd := .of "ZRANGEBYLEX" (4 ≤ ·) (fun env _ rest c =>
  attempt c (parseRangeOptions env.R "ZRANGEBYLEX" ⟨false, 0, 0⟩ (rest.drop 2)) (fun o =>
    query env.R c (c.zRangeByLex env.now (arg rest 2) (arg rest 3) o.offset o.count)
      (writeMembers env.R false)))

def zRank : KeyCmd := .of "ZRANK" (· = 3) (fun env _ rest c =>
  query env.R c (c.zRank env.now (arg rest 2)) intOrNull)

def zRevRank : KeyCmd := .of "ZREVRANK" (· = 3) (fun env _ rest c =>
  query env.R c (c.zRevRank env.now (arg rest 2)) intOrNull)

def zCount : KeyCmd := .of "ZCOUNT" (· = 4) (fun env _ rest c =>
  attempt c (parseScoreRange env.R (arg rest 2) (arg rest 3)) (fun range =>
    query env.R c (c.zCount env.now range.1 range.2) (fun n => [.int n])))

/-- `ZPOPMIN` and `ZPOPMAX`. -/
def zPop (name : String) (pop : Time → Int → Cell → Except Err (List ZMember) × Cell) : KeyCmd :=
  .of name (fun n => 2 ≤ n ∧ n ≤ 3) (fun env _ rest c =>
    attempt c (optionalCount env.R rest) (fun count =>
      logging env.R (pop env.now count c) (writeScored env.R)
        (fun items => if items = [] then [] else [(bytes "ZREM", items.map (·.member))])))

def zPopMin : KeyCmd := zPop "ZPOPMIN" (fun now count c => c.zPopMin now count)

def zPopMax : KeyCmd := zPop "ZPOPMAX" (fun now count c => c.zPopMax now count)

def zIncrBy : KeyCmd := .of "ZINCRBY" (· = 4) (fun env _ rest c =>
  attempt c (parseFloat64 env.R (arg rest 2)) (fun incr =>
    logging env.R (c.zIncrBy env.R env.now incr (arg rest 3))
      (fun score => [.bulk (env.R.formatFloat score)])
      (fun score => [(bytes "ZADD", [env.R.formatFloat score, arg rest 3])])))

/-! ## Positions -/

/-- The longitudes, latitudes and names of `GEOADD`. -/
def parseGeoMembers (R : Runtime) : List Bytes → Except Bytes (List (Bytes × F64 × F64))
  | lon :: lat :: name :: rest =>
    match parseFloat64 R lon, parseFloat64 R lat with
    | .error e, _ => .error e
    | .ok _, .error e => .error e
    | .ok x, .ok y => (parseGeoMembers R rest).map ((name, x, y) :: ·)
  | _ => .ok []

def geoAdd : KeyCmd := .of "GEOADD" (5 ≤ ·) (fun env _ rest c =>
  if rest.length % 3 ≠ 0 then fail c (wrongArgs (bytes "GEOADD"))
  else
    attempt c (parseGeoMembers env.R rest) (fun members =>
      let scored := geoMembers env.R members
      logged env.R (bytes "ZADD", scored.flatMap (fun m => [env.R.formatFloat m.score, m.member]))
        (c.zAdd env.now scored) (fun n => [.int n])))

/-- A position, as `GEOPOS` and `GEOSEARCH` write it. -/
def writePoint (lon lat : F64) : List Out :=
  [.arrayLen 2, .bulk (R.formatFloat lon), .bulk (R.formatFloat lat)]

def geoPos : KeyCmd := .of "GEOPOS" (3 ≤ ·) (fun env _ rest c =>
  answer c (.ok (.arrayLen rest.length :: rest.flatMap (fun member =>
    match c.geoPos env.R env.now member with
    | none => [.nullArray]
    | some p => writePoint env.R p.1 p.2))))

/-- `strings.ToLower`, as far as a comparison with an ASCII word can tell: besides the
letters of ASCII, the dotted capital `i` and the Kelvin sign have ASCII lower cases. -/
def toLower : Bytes → Bytes
  | 0xC4 :: 0xB0 :: rest => 105 :: toLower rest
  | 0xE2 :: 0x84 :: 0xAA :: rest => 107 :: toLower rest
  | c :: rest => (if 65 ≤ c ∧ c ≤ 90 then c + 32 else c) :: toLower rest
  | [] => []

/-- The metres of a unit of `GEODIST` and `GEOSEARCH`; `none` for metres. -/
def unitMetres (unit : Bytes) : Option F64 :=
  if unit = bytes "km" then some ⟨0x408F400000000000⟩
  else if unit = bytes "mi" then some ⟨0x409925604189374C⟩
  else if unit = bytes "ft" then some ⟨0x3FD381D7DBF487FD⟩
  else none

/-- `convertGeoUnit` -/
def convertGeoUnit (meters : F64) (unit : Bytes) : F64 :=
  (unitMetres unit).elim meters (R.divFloat meters)

/-- `geoUnitToMeters` -/
def geoUnitToMeters (val : F64) (unit : Bytes) : F64 :=
  (unitMetres unit).elim val (R.mulFloat val)

def geoDist : KeyCmd := .of "GEODIST" (fun n => 4 ≤ n ∧ n ≤ 5) (fun env _ rest c =>
  let unit := if rest.length + 2 = 5 then toLower (arg rest 4) else bytes "m"
  answer c (.ok (bulkOrNull ((c.geoDist env.R env.now (arg rest 2) (arg rest 3)).map
    (fun dist => env.R.formatFloat4 (convertGeoUnit env.R dist unit))))))

/-- The options of `GEOSEARCH`. -/
structure GeoOptions where
  centerLon : F64
  centerLat : F64
  fromMember : Bytes
  radius : F64
  asc : Bool
  count : Int
  withCoord : Bool
  withDist : Bool

/-- The loop of `geoSearch` over its options; unknown words are skipped. -/
def parseGeoOptions (R : Runtime) : GeoOptions → List Bytes → Except Bytes GeoOptions
  | o, [] => .ok o
  | o, opt :: rest =>
    let opt := toUpper opt
    let short : Except Bytes GeoOptions := .error (wrongArgs (bytes "GEOSEARCH"))
    if opt = bytes "FROMMEMBER" then
      match rest with
      | [] => short
      | member :: rest => parseGeoOptions R { o with fromMember := member } rest
    else if opt = bytes "FROMLONLAT" then
      match rest with
      | lon :: lat :: rest =>
        match parseFloat64 R lon, parseFloat64 R lat with
        | .error e, _ => .error e
        | .ok _, .error e => .error e
        | .ok x, .ok y => parseGeoOptions R { o with centerLon := x, centerLat := y } rest
      | _ => short
    else if opt = bytes "BYRADIUS" then
      match rest with
      | radius :: unit :: rest =>
        match parseFloat64 R radius with
        | .error e => .error e
        | .ok x =>
          parseGeoOptions R { o with radius := geoUnitToMeters R x (toLower unit) } rest
      | _ => short
    else if opt = bytes "COUNT" then
      match rest with
      | [] => short
      | count :: rest =>
        match atoi R count with
        | .error e => .error e
        | .ok n => parseGeoOptions R { o with count := n } rest
    else if opt = bytes "ASC" then parseGeoOptions R { o with asc := true } rest
    else if opt = bytes "DESC" then parseGeoOptions R { o with asc := false } rest
    else if opt = bytes "WITHCOORD" then parseGeoOptions R { o with withCoord := true } rest
    else if opt = bytes "WITHDIST" then parseGeoOptions R { o with withDist := true } rest
    else parseGeoOptions R o rest

/-- One hit of `GEOSEARCH`. -/
def writeGeoResult (o : GeoOptions) (r : Entry.GeoResult) : List Out :=
  let extras := (if o.withDist then 1 else 0) + (if o.withCoord then 1 else 0)
  if extras = 0 then [.bulk r.member]
  else .arrayLen (1 + extras) :: .bulk r.member ::
    ((if o.withDist then [.bulk (R.formatFloat4 r.dist)] else [])
      ++ (if o.withCoord then writePoint R r.lon r.lat else []))

/-- `geoSearch` -/
def geoSearch : KeyCmd := .of "GEOSEARCH" (6 ≤ ·) (fun env _ rest c =>
  attempt c (parseGeoOptions env.R ⟨F64.zero, F64.zero, [], F64.zero, true, 0, false, false⟩ rest)
    (fun o =>
      let results := if o.fromMember ≠ [] then
          c.geoSearchByMember env.R env.now o.fromMember o.radius o.count o.asc
        else .ok (c.geoSearchByRadius env.R env.now o.centerLon o.centerLat o.radius o.count o.asc)
      query env.R c results (fun results =>
        .arrayLen results.length :: results.flatMap (writeGeoResult env.R o))))

/-! ## Cardinality estimates -/

def pfAdd : KeyCmd := .of "PFADD" (2 ≤ ·) (fun env word rest c =>
  logging env.R (c.pfAdd env.now rest) (fun changed => [.int (if changed then 1 else 0)])
    (fun _ => [(word, rest)]))

end Vole.Server.Cmd
