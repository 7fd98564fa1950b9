import Call45Aggr.Library.Delimited
import Call45Aggr.Library.Run
import Call45Aggr.WebPages

/-! The connections of the web server: the requests that each of them reads, and the answers
that are written to it. -/
namespace Call45Aggr.Web
open Library

/-- What a session waits for; `writing` keeps the answer of `res_` and its `need_eof`. -/
inductive Phase
  | reading
  | writing (answer : Answer) (close : Bool)
  | closed
  | failed
  deriving DecidableEq

/-- The last four fields are the history of the connection. -/
structure Session where
  phase : Phase := .reading
  buffer : Bytes := []
  received : Bytes := []
  read : List Message := []
  sent : List Answer := []
  written : List Answer := []

/-- `request` carries what the pages show when the handler runs. -/
inductive Event
  | received (chunk : Bytes)
  | request (pages : String → View)
  | readFailed (endOfStream : Bool)
  | written
  | writeFailed

/-- The length of the body is always given. -/
def needEof (answer : Answer) : Bool := !answer.keepAlive

/-- The handlers of one session, which its strand runs one after another. The library adds to
the buffer only while it holds no whole request. -/
def Session.step (parse : Bytes → Option (Message × Bytes)) (server : Bytes)
    (byName : Sorting fun header : Nat × Bytes => header.1) (session : Session) : Event → Option Session
  | .received chunk =>
    if session.phase = .reading ∧ (parse session.buffer).isNone then
      some {session with buffer := session.buffer ++ chunk, received := session.received ++ chunk}
    else none
  | .request pages =>
    match session.phase, parse session.buffer with
    | .reading, some (request,rest) =>
      let answer := handleRequest server byName (defaultHandler pages) request
      some {session with
        phase := .writing answer (needEof answer)
        buffer := rest
        read := session.read ++ [request]
        sent := session.sent ++ [answer]}
    | _, _ => none
  | .readFailed endOfStream =>
    if session.phase = .reading ∧ (parse session.buffer).isNone then
      some {session with phase := if endOfStream then .closed else .failed}
    else none
  | .written =>
    match session.phase with
    | .writing answer close =>
      some {session with phase := if close then .closed else .reading, written := session.written ++ [answer]}
    | _ => none
  | .writeFailed =>
    match session.phase with
    | .writing _ _ => some {session with phase := .failed}
    | _ => none

structure Listener where
  sessions : List Session := []
  opened : Bool := true

inductive Action
  | accepted
  | acceptFailed
  | stop
  | event (place : Nat) (event : Event)

/-- After a failure `do_accept` is called as after a success, also when the acceptor is closed. -/
def Listener.step (parse : Bytes → Option (Message × Bytes)) (server : Bytes)
    (byName : Sorting fun header : Nat × Bytes => header.1) (listener : Listener) : Action → Option Listener
  | .accepted => if listener.opened then some {listener with sessions := listener.sessions ++ [{}]} else none
  | .acceptFailed => some listener
  | .stop => some {listener with opened := false}
  | .event place event =>
    (listener.sessions[place]?).bind fun session =>
      (session.step parse server byName event).map fun next =>
        {listener with sessions := listener.sessions.set place next}

variable {parse : Bytes → Option (Message × Bytes)} {server : Bytes}
  {byName : Sorting fun header : Nat × Bytes => header.1}

/-- The answer of the pages as they were at some moment. -/
def Answers (server : Bytes) (byName : Sorting fun header : Nat × Bytes => header.1) (request : Message)
    (answer : Answer) : Prop :=
  ∃ pages, handleRequest server byName (defaultHandler pages) request = answer

/-- Of the answers at most the last is not written yet, and only while the session still
writes it or when its writing failed. -/
def Session.Outstanding (session : Session) : Prop :=
  match session.phase with
  | .reading => session.sent = session.written ∧ ∀ request ∈ session.read, request.keepAlive = true
  | .writing answer close => session.sent = session.written ++ [answer] ∧
    ∃ before last, session.read = before ++ [last] ∧ close = !last.keepAlive
  | .closed => session.sent = session.written
  | .failed => session.sent = session.written ∨ ∃ answer, session.sent = session.written ++ [answer]

/-- The requests are those of the received bytes, each has one answer at its own place, and
there is another request only after one that keeps the connection. -/
structure Session.Orderly (parse : Bytes → Option (Message × Bytes)) (server : Bytes)
    (byName : Sorting fun header : Nat × Bytes => header.1) (session : Session) : Prop where
  framed : Framed parse session.received session.read session.buffer
  answered : List.Forall₂ (Answers server byName) session.read session.sent
  kept : ∀ request ∈ session.read.dropLast, request.keepAlive = true
  outstanding : session.Outstanding

theorem Session.step_received {session next : Session} {chunk : Bytes}
    (stepped : session.step parse server byName (.received chunk) = some next) :
    session.phase = .reading ∧
      next = {session with buffer := session.buffer ++ chunk, received := session.received ++ chunk} := by
  rw [Session.step] at stepped
  split at stepped
  next reading => exact ⟨reading.1,(Option.some.inj stepped).symm⟩
  next => contradiction

theorem Session.step_request {session next : Session} {pages : String → View}
    (stepped : session.step parse server byName (.request pages) = some next) :
    session.phase = .reading ∧ ∃ request rest result, parse session.buffer = some (request,rest) ∧
      handleRequest server byName (defaultHandler pages) request = result ∧
      next = {session with
        phase := .writing result (needEof result)
        buffer := rest
        read := session.read ++ [request]
        sent := session.sent ++ [result]} := by
  rw [Session.step] at stepped
  split at stepped
  next request rest reading parsed =>
    exact ⟨reading,request,rest,_,parsed,rfl,(Option.some.inj stepped).symm⟩
  next => contradiction

theorem Session.step_readFailed {session next : Session} {endOfStream : Bool}
    (stepped : session.step parse server byName (.readFailed endOfStream) = some next) :
    session.phase = .reading ∧ next = {session with phase := if endOfStream then .closed else .failed} := by
  rw [Session.step] at stepped
  split at stepped
  next reading => exact ⟨reading.1,(Option.some.inj stepped).symm⟩
  next => contradiction

theorem Session.step_written {session next : Session}
    (stepped : session.step parse server byName .written = some next) :
    ∃ result close, session.phase = .writing result close ∧
      next = {session with
        phase := if close then .closed else .reading
        written := session.written ++ [result]} := by
  rw [Session.step] at stepped
  split at stepped
  next result close writing => exact ⟨result,close,writing,(Option.some.inj stepped).symm⟩
  next => contradiction

theorem Session.step_writeFailed {session next : Session}
    (stepped : session.step parse server byName .writeFailed = some next) :
    ∃ result close, session.phase = .writing result close ∧ next = {session with phase := .failed} := by
  rw [Session.step] at stepped
  split at stepped
  next result close writing => exact ⟨result,close,writing,(Option.some.inj stepped).symm⟩
  next => contradiction

theorem Session.outstanding_reading {session : Session} (reading : session.phase = .reading) :
    session.Outstanding ↔
      session.sent = session.written ∧ ∀ request ∈ session.read, request.keepAlive = true := by
  rw [Session.Outstanding,reading]

theorem Session.outstanding_writing {session : Session} {result : Answer} {close : Bool}
    (writing : session.phase = .writing result close) :
    session.Outstanding ↔ session.sent = session.written ++ [result] ∧
      ∃ before last, session.read = before ++ [last] ∧ close = !last.keepAlive := by
  rw [Session.Outstanding,writing]

theorem Session.orderly_step (ext : Extends parse) {session next : Session} {event : Event}
    (orderly : session.Orderly parse server byName)
    (stepped : session.step parse server byName event = some next) : next.Orderly parse server byName := by
  cases event with
  | received chunk =>
    obtain ⟨reading,rfl⟩ := Session.step_received stepped
    exact ⟨orderly.framed.append ext chunk,orderly.answered,orderly.kept,orderly.outstanding⟩
  | request pages =>
    obtain ⟨reading,request,rest,result,parsed,handled,rfl⟩ := Session.step_request stepped
    obtain ⟨done,stays⟩ := (Session.outstanding_reading reading).mp orderly.outstanding
    refine ⟨orderly.framed.concat parsed,?_,?_,?_⟩
    · exact List.rel_append orderly.answered (.cons ⟨pages,handled⟩ .nil)
    · intro earlier member
      rw [List.dropLast_concat] at member
      exact stays earlier member
    · refine ⟨congrArg (· ++ [result]) done,session.read,request,rfl,?_⟩
      rw [← handled]
      rfl
  | readFailed endOfStream =>
    obtain ⟨reading,rfl⟩ := Session.step_readFailed stepped
    obtain ⟨done,_⟩ := (Session.outstanding_reading reading).mp orderly.outstanding
    refine ⟨orderly.framed,orderly.answered,orderly.kept,?_⟩
    cases endOfStream with
    | true => exact done
    | false => exact .inl done
  | written =>
    obtain ⟨result,close,writing,rfl⟩ := Session.step_written stepped
    obtain ⟨done,before,last,whole,asked⟩ := (Session.outstanding_writing writing).mp orderly.outstanding
    refine ⟨orderly.framed,orderly.answered,orderly.kept,?_⟩
    cases close with
    | true => exact done
    | false =>
      have stays : last.keepAlive = true := by simpa using asked
      refine ⟨done,fun request member => ?_⟩
      have kept := orderly.kept
      rw [whole,List.dropLast_concat] at kept
      rcases List.mem_append.mp (whole ▸ member) with earlier | final
      · exact kept request earlier
      · rw [List.mem_singleton.mp final]
        exact stays
  | writeFailed =>
    obtain ⟨result,close,writing,rfl⟩ := Session.step_writeFailed stepped
    obtain ⟨done,_⟩ := (Session.outstanding_writing writing).mp orderly.outstanding
    exact ⟨orderly.framed,orderly.answered,orderly.kept,.inr ⟨result,done⟩⟩

theorem Session.orderly_fresh : ({} : Session).Orderly parse server byName :=
  ⟨.nil [],.nil,nofun,rfl,nofun⟩

/-- Each session goes through its own steps only, whatever happens between them on the others. -/
theorem Listener.sessions_own {listener : Listener}
    (run : Run (Listener.step parse server byName) Always {} listener) :
    ∀ session ∈ listener.sessions, Run (Session.step parse server byName) Always {} session := by
  apply run.invariant
  · intro session member
    cases member
  intro listener next action _ own _ stepped
  cases action with
  | accepted =>
    rw [Listener.step] at stepped
    split at stepped
    next =>
      cases Option.some.inj stepped
      intro session member
      rcases List.mem_append.mp member with earlier | fresh
      · exact own session earlier
      · rw [List.mem_singleton.mp fresh]
        exact .start
    next => contradiction
  | acceptFailed =>
    cases Option.some.inj stepped
    exact own
  | stop =>
    cases Option.some.inj stepped
    exact own
  | event place event =>
    obtain ⟨session,located,own_step⟩ := Option.bind_eq_some_iff.mp stepped
    obtain ⟨later,moved,rfl⟩ := Option.map_eq_some_iff.mp own_step
    intro other member
    rcases List.mem_or_eq_of_mem_set member with same | rfl
    · exact own other same
    · exact .step session other event (own session (List.mem_of_getElem? located)) trivial moved

def stateText : Bytes := bytes "GET /state HTTP/1.1\r\n\r\n"

/-- Reads this one request only. -/
def parseState (buffer : Bytes) : Option (Message × Bytes) :=
  if stateText.isPrefixOf buffer then some ({target := bytes "/state"},buffer.drop stateText.length) else none

theorem parseState_extends : Extends parseState := by
  intro stream more message rest parsed
  rw [parseState] at parsed
  split at parsed
  next whole =>
    obtain ⟨left,rfl⟩ := List.isPrefixOf_iff_prefix.mp whole
    cases Option.some.inj parsed
    have longer : stateText.isPrefixOf (stateText ++ left ++ more) = true :=
      List.isPrefixOf_iff_prefix.mpr ⟨left ++ more,(List.append_assoc ..).symm⟩
    rw [parseState,if_pos longer,List.append_assoc,List.drop_left,List.drop_left]
  next => contradiction

def visit : List Action :=
  [.accepted,.event 0 (.received stateText),.event 0 (.request fun _ _ => none),.event 0 .written]

end Call45Aggr.Web
