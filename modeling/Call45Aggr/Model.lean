import Call45Aggr.JsonValue
import Call45Aggr.Library.SortedMap
import Mathlib.Data.String.Basic

/-! The records the daemon reads, merges and reports, and the values of `settings_impl` with
their defaults. -/
namespace Call45Aggr
open Library

structure CallLeg where
  id : Int
  serverId : Int
  uniqueid : String
  channame : String
  orig : Bool
  accountId : Int
  vpbxId : Int
  startTime : String
  answerTime : String
  stopTime : String
  finalStatus : String
  q931Status : Int
  hangupCause : String
  number : String
  name : String
  did : Int
  didType : String
  objectType : String
  objectId : Int
  sipIp : String
  lastLinkedId : String
  sipCallHashId : String
  callIdMd5 : String
  extraInfoId : String
  deriving DecidableEq, Inhabited

structure CallLegLink where
  id : Int
  serverId : Int
  uniqueidOrig : String
  channameOrig : String
  uniqueidTerm : String
  channameTerm : String
  linkStartTime : String
  linkAnswerTime : String
  linkEndTime : String
  recFilename : String
  status : String
  bridged : Bool
  cf : String
  trfBy : String
  queueCallid : String
  objectType : String
  objectData : Json
  deriving Inhabited

def CallLeg.row (uniqueid : String) (orig : Bool) (startTime : String) : CallLeg :=
  {(default : CallLeg) with uniqueid,orig,startTime}

def CallLegLink.row (uniqueidOrig uniqueidTerm linkStartTime : String) : CallLegLink :=
  {(default : CallLegLink) with uniqueidOrig,uniqueidTerm,linkStartTime}

structure CallLegLinkOnline where
  uniqueidOrig : String
  channameOrig : String
  uniqueidTerm : String
  channameTerm : String
  linkStartTime : String
  deriving DecidableEq, Inhabited

/-- A call while it is merged. The members `a` and `b` are first assigned after the
record left the merge, so they are no part of it here. -/
structure CallRecord where
  orig : String
  startTime : Int
  legs : SortedMap String CallLeg
  links : List CallLegLink

def CallRecord.ofLeg (leg : CallLeg) (stemp : Int) : CallRecord where
  orig := leg.uniqueid
  startTime := stemp
  legs := SortedMap.empty.insert leg.uniqueid leg
  links := []

@[simp] theorem CallRecord.ofLeg_legs (leg : CallLeg) (stemp : Int) :
    (CallRecord.ofLeg leg stemp).legs.values = [leg] := rfl

/-- The vector under one key of `links_`. Its entry is created by the first
`push_back`, so it always has a front. -/
structure Bucket where
  front : CallLegLink
  back : List CallLegLink

def Bucket.toList (bucket : Bucket) : List CallLegLink := bucket.front :: bucket.back

def Bucket.pushBack (bucket : Bucket) (link : CallLegLink) : Bucket :=
  {bucket with back := bucket.back ++ [link]}

@[simp] theorem Bucket.toList_pushBack (bucket : Bucket) (link : CallLegLink) :
    (bucket.pushBack link).toList = bucket.toList ++ [link] := by
  simp [toList,pushBack]

/-- The file is read once, before the first thread starts, so one value serves a whole run. -/
structure Settings where
  settingsPath : String := ""
  webPort : UInt16 := 8080
  maxCallTime : UInt32 := 10800
  tableReloadTime : UInt32 := 300
  maxQueueSize : UInt32 := 10000
  sqlInsertBufferSize : UInt32 := 1024 * 1024 * 10
  readThresholdSecond : UInt32 := 10000
  readWaitingSecond : UInt32 := 900
  threadsCount : UInt32 := 5
  sourceConnectionString : String := ""
  outputConnectionString : String := ""
  onlineConnectionString : List String := []
  pathToLogFile : String := ""
  graylogHost : String := ""
  graylogPort : UInt16 := 12201
  graylogSource : String := "dev"
  instanceId : UInt32 := 9000
  instanceName : String := "Unknown"
  syncThreadPeriod : UInt64 := 1000
  dbBandwidth : UInt64 := 18446744073709551615
  loaderThreadCount : UInt32 := 4
  type : String := "master"
  logLevel : String := "DEBUG"
  useCoreDump : Bool := true
  deriving DecidableEq

/-- An `unsigned` setting in an expression with a `time_t` is converted to it. -/
def seconds (value : UInt32) : Int := value.toNat

theorem seconds_nonneg (value : UInt32) : 0 ≤ seconds value := Int.natCast_nonneg _

end Call45Aggr
