import Call45Aggr.Sessions

/-! `BDb::copy_ex`: a table goes buffer by buffer from one connection to another, and a copy
that breaks off is not ended. -/
namespace Call45Aggr.Sessions

/-- A buffer of `PQgetCopyData`; zero bytes come without one. -/
abbrev Buffer := List UInt8

/-- What the servers and the callback do in a copy: `buffers` are read before a negative
count is, and `callback` is given all that was reported to it so far. -/
structure Peers where
  source : Server
  destination : Server
  buffers : List Buffer
  sourceResult : ExecStatus := .commandOk
  puts : Nat → Bool := fun _ => true
  putsEnd : Bool := true
  destinationResult : ExecStatus := .commandOk
  callback : List Nat → Option Thrown := fun _ => none

/-- The buffers put to the destination and the numbers reported. -/
structure Transfer where
  received : List Buffer := []
  reported : List Nat := []

/-- How a copy came out: `ended` is that `PQputCopyEnd` was sent. -/
structure Streamed where
  transfer : Transfer := {}
  ended : Bool := false
  outcome : Except Thrown Nat

structure Copied extends Streamed where
  source : BDb
  destination : BDb

structure CopyTables where
  srcTable : String
  dstTable : String
  srcColumns : String
  dstColumns : String
  condition : String := ""

namespace CopyTables

def selectQuery (tables : CopyTables) : String :=
  "select " ++ tables.srcColumns ++ " from " ++ tables.srcTable ++
    if tables.condition = "" then "" else " where " ++ tables.condition

def queryRead (tables : CopyTables) : String := "copy (" ++ tables.selectQuery ++ ") to stdout with binary"

def queryWrite (tables : CopyTables) : String :=
  "copy " ++ (if tables.dstColumns = "*" then tables.dstTable
    else tables.dstTable ++ "(" ++ tables.dstColumns ++ ")") ++ " from stdin with binary"

end CopyTables

namespace Transfer

def put (t : Transfer) (buffer : Buffer) : Transfer :=
  {t with received := t.received ++ if buffer = [] then [] else [buffer]}

def report (peers : Peers) (t : Transfer) (bytes : Nat) : Transfer × Option Thrown :=
  ({t with reported := t.reported ++ [bytes]},peers.callback (t.reported ++ [bytes]))

/-- The loop of `copy_ex`, to its end at a negative count. -/
def loop (peers : Peers) : List Buffer → Nat → Transfer → Transfer × Except Thrown Nat
  | [], totalBytesRead, t => (t,.ok totalBytesRead)
  | buffer :: rest, totalBytesRead, t =>
    if buffer ≠ [] ∧ peers.puts t.received.length = false then (t,.error .dbException)
    else
      match (t.put buffer).report peers buffer.length with
      | (t,some thrown) => (t,.error thrown)
      | (t,none) => loop peers rest ((totalBytesRead + buffer.length) % 18446744073709551616) t

end Transfer

/-- `copy_ex` once both servers have answered its queries. -/
def stream (peers : Peers) : Streamed :=
  match Transfer.report peers {} 0 with
  | (transfer,some thrown) => {transfer,outcome := .error thrown}
  | (transfer,none) =>
    match transfer.loop peers peers.buffers 0 with
    | (transfer,.error thrown) => {transfer,outcome := .error thrown}
    | (transfer,.ok totalBytesRead) =>
      if peers.sourceResult ≠ .commandOk ∨ peers.putsEnd = false then {transfer,outcome := .error .dbException}
      else if peers.destinationResult ≠ .commandOk then {transfer,ended := true,outcome := .error .dbException}
      else {transfer,ended := true,outcome := .ok totalBytesRead}

namespace BDb

/-- The destructor of `BDConnectScope`. -/
def leave (wasConnected : Bool) (db : BDb) : BDb := if wasConnected then db else db.disconnect

/-- `copy_ex` after the scopes of both connections have begun. -/
def transfer (peers : Peers) (tables : CopyTables) (dbSrc dbDst : BDb) : Copied :=
  match dbSrc.send peers.source tables.queryRead with
  | (source,reply) =>
    if reply.status ≠ .copyOut then {source,destination := dbDst,outcome := .error .dbException}
    else
      match dbDst.send peers.destination tables.queryWrite with
      | (destination,reply) =>
        if reply.status ≠ .copyIn then {source,destination,outcome := .error .dbException}
        else {stream peers with source,destination}

def copyEx (peers : Peers) (tables : CopyTables) (dbSrc dbDst : BDb) : Copied :=
  if tables.srcColumns = "" ∨ tables.dstColumns = "" then
    {source := dbSrc,destination := dbDst,outcome := .error .logicError}
  else
    match dbSrc.connect peers.source with
    | (source,.error thrown) => {source,destination := dbDst,outcome := .error thrown}
    | (source,.ok ()) =>
      match dbDst.connect peers.destination with
      | (destination,.error thrown) =>
        {source := source.leave dbSrc.connected,destination,outcome := .error thrown}
      | (destination,.ok ()) =>
        let copied := transfer peers tables source destination
        {copied with
          source := copied.source.leave dbSrc.connected
          destination := copied.destination.leave dbDst.connected}

end BDb

def filled (buffers : List Buffer) : List Buffer := buffers.filter fun buffer => buffer ≠ []

def totalBytes (buffers : List Buffer) : Nat := (buffers.map List.length).sum

namespace Transfer
variable {peers : Peers}

/-- `t` after `buffers` have gone through. -/
def through (t : Transfer) (buffers : List Buffer) : Transfer :=
  {received := t.received ++ filled buffers,reported := t.reported ++ buffers.map List.length}

/-- Neither the destination nor the callback stops `buffers`. -/
def Unhindered (peers : Peers) (t : Transfer) (buffers : List Buffer) : Prop :=
  (∀ place < (filled buffers).length, peers.puts (t.received.length + place) = true) ∧
    ∀ reported, reported ≠ [] → reported <+: buffers.map List.length →
      peers.callback (t.reported ++ reported) = none

@[simp] theorem filled_nil : filled [] = [] := rfl

theorem filled_cons (buffer : Buffer) (rest : List Buffer) :
    filled (buffer :: rest) = (if buffer = [] then [] else [buffer]) ++ filled rest := by
  unfold filled
  rw [List.filter_cons]
  by_cases empty : buffer = [] <;> simp [empty]

theorem through_cons (t : Transfer) (buffer : Buffer) (rest : List Buffer) :
    t.through (buffer :: rest) = (t.through [buffer]).through rest := by
  simp [through,filled_cons,List.append_assoc]

theorem report_put (t : Transfer) (buffer : Buffer) : (t.put buffer).report peers buffer.length =
    (t.through [buffer],peers.callback (t.reported ++ [buffer.length])) := by
  simp [report,put,through,filled_cons]

theorem prefixes_cons {length : Nat} {rest : List Nat} {P : List Nat → Prop} :
    (∀ reported, reported ≠ [] → reported <+: length :: rest → P reported) ↔
      P [length] ∧ ∀ reported, reported ≠ [] → reported <+: rest → P (length :: reported) := by
  constructor
  · intro all
    refine ⟨all _ (by simp) (by simp),fun reported _ before => ?_⟩
    exact all _ (by simp) ((List.prefix_cons_inj length).mpr before)
  · rintro ⟨first,others⟩ reported nonempty before
    obtain rfl | ⟨more,rfl,within⟩ := List.prefix_cons_iff.mp before
    · contradiction
    · cases more with
      | nil => exact first
      | cons second more => exact others _ (by simp) within

theorem unhindered_cons (t : Transfer) (buffer : Buffer) (rest : List Buffer) :
    t.Unhindered peers (buffer :: rest) ↔ (buffer ≠ [] → peers.puts t.received.length = true) ∧
      peers.callback (t.reported ++ [buffer.length]) = none ∧ (t.through [buffer]).Unhindered peers rest := by
  have puts : (∀ place < (filled (buffer :: rest)).length, peers.puts (t.received.length + place) = true) ↔
      (buffer ≠ [] → peers.puts t.received.length = true) ∧
        ∀ place < (filled rest).length, peers.puts ((t.through [buffer]).received.length + place) = true := by
    by_cases empty : buffer = []
    · simp [filled_cons,through,empty]
    · simp only [filled_cons,through,empty,if_false,List.length_append,List.length_singleton,
        not_false_eq_true,forall_const,ne_eq]
      constructor
      · intro all
        refine ⟨all 0 (by omega),fun place bound => ?_⟩
        rw [Nat.add_assoc]
        exact all (1 + place) (by omega)
      · rintro ⟨first,others⟩ place bound
        cases place with
        | zero => exact first
        | succ place =>
          rw [Nat.add_comm place,← Nat.add_assoc]
          exact others place (by omega)
  rw [Unhindered,Unhindered,puts,List.map_cons,prefixes_cons]
  simp only [through,List.append_assoc,List.map_cons,List.map_nil,List.singleton_append]
  tauto

/-- The loop ends with all of the buffers, or it is stopped after some of them. -/
theorem loop_cases (buffers : List Buffer) {total : Nat} (fits : total < 18446744073709551616) (t : Transfer) :
    (t.Unhindered peers buffers ∧ t.loop peers buffers total =
        (t.through buffers,.ok ((total + totalBytes buffers) % 18446744073709551616))) ∨
      ∃ done thrown, done <+: buffers ∧ ¬t.Unhindered peers buffers ∧
        t.loop peers buffers total = (t.through done,.error thrown) := by
  induction buffers generalizing total t with
  | nil =>
    refine .inl ⟨⟨by simp,?_⟩,?_⟩
    · exact fun reported nonempty before => absurd (List.prefix_nil.mp before) nonempty
    · simp [loop,through,totalBytes,Nat.mod_eq_of_lt fits]
  | cons buffer rest ih =>
    rw [unhindered_cons,loop,report_put]
    by_cases refused : buffer ≠ [] ∧ peers.puts t.received.length = false
    · refine .inr ⟨[],.dbException,List.nil_prefix,?_,by rw [if_pos refused]; simp [through]⟩
      rintro ⟨taken,-,-⟩
      simp [taken refused.1] at refused
    have taken : buffer ≠ [] → peers.puts t.received.length = true := fun nonempty => by
      simpa [nonempty] using refused
    rw [if_neg refused]
    cases heard : peers.callback (t.reported ++ [buffer.length]) with
    | some thrown =>
      exact .inr ⟨[buffer],thrown,(List.prefix_cons_inj buffer).mpr List.nil_prefix,by simp,rfl⟩
    | none =>
      dsimp only
      obtain ⟨unhindered,looped⟩ | ⟨done,thrown,before,hindered,looped⟩ :=
        ih (Nat.mod_lt (total + buffer.length) (by omega)) (t.through [buffer])
      · refine .inl ⟨⟨taken,rfl,unhindered⟩,?_⟩
        rw [looped,through_cons t buffer rest]
        simp [totalBytes,Nat.add_assoc]
      · refine .inr ⟨buffer :: done,thrown,(List.prefix_cons_inj buffer).mpr before,?_,?_⟩
        · exact fun all => hindered all.2.2
        · rw [looped,through_cons t buffer done]

end Transfer

/-- What the destination has is the beginning of what the source gave, and it is only told
the end after all of it, of a source that has ended well. -/
structure Faithful (peers : Peers) (streamed : Streamed) : Prop where
  received : streamed.transfer.received <+: filled peers.buffers
  reported : streamed.transfer.reported <+: 0 :: peers.buffers.map List.length
  ended : streamed.ended = true → streamed.transfer.received = filled peers.buffers ∧
    streamed.transfer.reported = 0 :: peers.buffers.map List.length ∧ peers.sourceResult = .commandOk

/-- Nothing stops the copy once it has begun. -/
structure Unstopped (peers : Peers) : Prop where
  puts : ∀ place < (filled peers.buffers).length, peers.puts place = true
  callback : ∀ reported, reported ≠ [] → reported <+: 0 :: peers.buffers.map List.length →
    peers.callback reported = none
  results : peers.sourceResult = .commandOk ∧ peers.putsEnd = true ∧ peers.destinationResult = .commandOk

theorem unstopped_iff (peers : Peers) : Unstopped peers ↔ peers.callback [0] = none ∧
    (Transfer.mk [] [0]).Unhindered peers peers.buffers ∧
    peers.sourceResult = .commandOk ∧ peers.putsEnd = true ∧ peers.destinationResult = .commandOk := by
  constructor
  · rintro ⟨puts,callback,results⟩
    obtain ⟨first,others⟩ := Transfer.prefixes_cons.mp callback
    exact ⟨first,⟨by simpa using puts,others⟩,results⟩
  · rintro ⟨first,⟨puts,others⟩,results⟩
    exact ⟨by simpa using puts,Transfer.prefixes_cons.mpr ⟨first,others⟩,results⟩

theorem stream_faithful (peers : Peers) : Faithful peers (stream peers) := by
  unfold stream Transfer.report
  cases heard : peers.callback ([] ++ [0]) with
  | some thrown => exact ⟨List.nil_prefix,by simp,nofun⟩
  | none =>
    dsimp only
    obtain ⟨_,looped⟩ | ⟨done,thrown,before,_,looped⟩ :=
      @Transfer.loop_cases peers peers.buffers 0 (by omega) ⟨[],[] ++ [0]⟩
    · rw [looped]
      have all : Transfer.through ⟨[],[] ++ [0]⟩ peers.buffers =
          ⟨filled peers.buffers,0 :: peers.buffers.map List.length⟩ := rfl
      rw [all]
      dsimp only
      split_ifs with broken failed
      · exact ⟨List.prefix_rfl,List.prefix_rfl,nofun⟩
      all_goals exact ⟨List.prefix_rfl,List.prefix_rfl,fun _ => ⟨rfl,rfl,by simp_all⟩⟩
    · rw [looped]
      refine ⟨?_,?_,nofun⟩
      · exact before.filter _
      · exact (List.prefix_cons_inj 0).mpr (before.map _)

theorem stream_ok_iff (peers : Peers) (total : Nat) : (stream peers).outcome = .ok total ↔
    Unstopped peers ∧ total = totalBytes peers.buffers % 18446744073709551616 := by
  rw [unstopped_iff]
  unfold stream Transfer.report
  cases heard : peers.callback ([] ++ [0]) with
  | some thrown => simp_all
  | none =>
    dsimp only
    obtain ⟨unhindered,looped⟩ | ⟨done,thrown,_,hindered,looped⟩ :=
      @Transfer.loop_cases peers peers.buffers 0 (by omega) ⟨[],[] ++ [0]⟩
    · rw [looped]
      dsimp only
      split_ifs with broken failed
      · refine iff_of_false nofun ?_
        rintro ⟨⟨_,_,read,ended,_⟩,_⟩
        simp [read,ended] at broken
      · exact iff_of_false nofun fun all => failed all.1.2.2.2.2
      · obtain ⟨read,ended⟩ : peers.sourceResult = .commandOk ∧ ¬peers.putsEnd = false := by
          simpa only [not_or,not_not] using broken
        refine ⟨fun same => ?_,fun all => ?_⟩
        · refine ⟨⟨heard,unhindered,read,by simpa using ended,not_not.mp failed⟩,?_⟩
          simpa using (Except.ok.inj same).symm
        · rw [all.2,Nat.zero_add]
    · rw [looped]
      exact iff_of_false nofun fun all => hindered all.1.2.1

namespace BDb

theorem send_conn (server : Server) (db : BDb) (statement : String) :
    (db.send server statement).1.conn = db.conn := by
  rw [send]
  split <;> rfl

/-- The connection is as it was: open in the same session, or closed. -/
theorem leave_conn {db opened next : BDb} {server : Server} (connected : db.connect server = (opened,.ok ()))
    (same : next.conn = opened.conn) : (next.leave db.connected).conn = db.conn := by
  cases conn : db.conn with
  | some session =>
    rw [connect,if_pos (by simp [BDb.connected,conn])] at connected
    obtain rfl := (Prod.mk.inj connected).1
    rw [leave,if_pos (by simp [BDb.connected,conn]),same,conn]
  | none =>
    rw [leave,if_neg (by simp [BDb.connected,conn])]
    rfl

theorem connect_failed {db next : BDb} {server : Server} {thrown : Thrown}
    (failed : db.connect server = (next,.error thrown)) : next.conn = db.conn := by
  cases conn : db.conn with
  | some session =>
    rw [connect,if_pos (by simp [BDb.connected,conn])] at failed
    simp at failed
  | none =>
    have opened := @connect_opened server _ conn
    rw [failed] at opened
    cases opened with
    | refused _ part thrown began closed short => exact closed

/-- Both connections take their queries. -/
def Begins (peers : Peers) (tables : CopyTables) (dbSrc dbDst : BDb) : Prop :=
  tables.srcColumns ≠ "" ∧ tables.dstColumns ≠ "" ∧
    (∃ source, dbSrc.connect peers.source = (source,.ok ()) ∧
      (source.send peers.source tables.queryRead).2.status = .copyOut) ∧
    ∃ destination, dbDst.connect peers.destination = (destination,.ok ()) ∧
      (destination.send peers.destination tables.queryWrite).2.status = .copyIn

theorem transfer_conn (peers : Peers) (tables : CopyTables) (source destination : BDb) :
    (transfer peers tables source destination).source.conn = source.conn ∧
      (transfer peers tables source destination).destination.conn = destination.conn := by
  unfold transfer
  dsimp only
  split
  · exact ⟨send_conn _ _ _,rfl⟩
  · split
    · exact ⟨send_conn _ _ _,send_conn _ _ _⟩
    · exact ⟨send_conn _ _ _,send_conn _ _ _⟩

theorem transfer_faithful (peers : Peers) (tables : CopyTables) (source destination : BDb) :
    Faithful peers (transfer peers tables source destination).toStreamed := by
  unfold transfer
  dsimp only
  split
  · exact ⟨List.nil_prefix,List.nil_prefix,nofun⟩
  · split
    · exact ⟨List.nil_prefix,List.nil_prefix,nofun⟩
    · exact stream_faithful peers

theorem transfer_ok_iff (peers : Peers) (tables : CopyTables) (source destination : BDb) (total : Nat) :
    (transfer peers tables source destination).outcome = .ok total ↔
      (source.send peers.source tables.queryRead).2.status = .copyOut ∧
      (destination.send peers.destination tables.queryWrite).2.status = .copyIn ∧
      Unstopped peers ∧ total = totalBytes peers.buffers % 18446744073709551616 := by
  unfold transfer
  dsimp only
  split
  next unread => exact iff_of_false nofun fun all => unread all.1
  next read =>
    split
    next unwritten => exact iff_of_false nofun fun all => unwritten all.2.1
    next write => simpa [not_not.mp read,not_not.mp write] using stream_ok_iff peers total

theorem copyEx_cases (peers : Peers) (tables : CopyTables) (dbSrc dbDst : BDb) :
    (¬Begins peers tables dbSrc dbDst ∧ ∃ source destination thrown, source.conn = dbSrc.conn ∧
      destination.conn = dbDst.conn ∧
      copyEx peers tables dbSrc dbDst = {source,destination,outcome := .error thrown}) ∨
    (tables.srcColumns ≠ "" ∧ tables.dstColumns ≠ "") ∧ ∃ source destination,
      dbSrc.connect peers.source = (source,.ok ()) ∧ dbDst.connect peers.destination = (destination,.ok ()) ∧
      copyEx peers tables dbSrc dbDst = {(transfer peers tables source destination) with
        source := (transfer peers tables source destination).source.leave dbSrc.connected
        destination := (transfer peers tables source destination).destination.leave dbDst.connected} := by
  unfold copyEx
  by_cases columns : tables.srcColumns = "" ∨ tables.dstColumns = ""
  · rw [if_pos columns]
    refine .inl ⟨?_,_,_,_,rfl,rfl,rfl⟩
    rintro ⟨source,destination,_⟩
    exact columns.elim source destination
  · rw [if_neg columns]
    split
    next source thrown failed =>
      refine .inl ⟨?_,_,_,_,connect_failed failed,rfl,rfl⟩
      rintro ⟨_,_,⟨opened,connected,_⟩,_⟩
      simp [failed] at connected
    next source opened =>
      split
      next destination thrown failed =>
        refine .inl ⟨?_,_,_,_,leave_conn opened rfl,connect_failed failed,rfl⟩
        rintro ⟨_,_,_,_,connected,_⟩
        simp [failed] at connected
      next destination connected => exact .inr ⟨not_or.mp columns,_,_,opened,connected,rfl⟩

/-- A copy returns the number of bytes of the whole table just when nothing goes wrong, and
else what the destination was given is not ended, or all of it is there. The connections are
left as they were. -/
theorem copied_whole_or_unended (peers : Peers) (tables : CopyTables) (dbSrc dbDst : BDb) :
    (∀ total, (copyEx peers tables dbSrc dbDst).outcome = .ok total ↔ Begins peers tables dbSrc dbDst ∧
      Unstopped peers ∧ total = totalBytes peers.buffers % 18446744073709551616) ∧
    Faithful peers (copyEx peers tables dbSrc dbDst).toStreamed ∧
    (copyEx peers tables dbSrc dbDst).source.conn = dbSrc.conn ∧
    (copyEx peers tables dbSrc dbDst).destination.conn = dbDst.conn := by
  obtain ⟨unbegun,source,destination,thrown,read,written,copied⟩ |
    ⟨columns,source,destination,opened,connected,copied⟩ := copyEx_cases peers tables dbSrc dbDst
  · rw [copied]
    refine ⟨fun total => ?_,⟨List.nil_prefix,List.nil_prefix,nofun⟩,read,written⟩
    exact iff_of_false nofun fun all => unbegun all.1
  · have begins : Begins peers tables dbSrc dbDst ↔
        (source.send peers.source tables.queryRead).2.status = .copyOut ∧
          (destination.send peers.destination tables.queryWrite).2.status = .copyIn := by
      simp [Begins,columns,opened,connected]
    obtain ⟨read,written⟩ := transfer_conn peers tables source destination
    rw [copied]
    refine ⟨fun total => ?_,transfer_faithful peers tables source destination,leave_conn opened read,
      leave_conn connected written⟩
    rw [begins,and_assoc]
    exact transfer_ok_iff peers tables source destination total

end BDb
end Call45Aggr.Sessions
